import AstraVeil.Providers.Registry

/-!
# The selection of a backend for a requirement

`providers/selection/ProviderSelector.kt`: the backends that the analyzer gives a positive score for
the required capability, the preferred one if it reaches the minimum, else the first of those with
the highest score.

* `maxByOrNull_eq_some_iff`: what `maxByOrNull` finds;
* `scored_fresh_eq`: which reports are looked at;
* `score_pos_iff`, `selinux_score_pos_iff`: what a positive score means;
* `exists_wins_of_select`, `exists_select_of_wins`: which backend is selected;
* `honours_iff`: when the selection respects the capabilities and agrees with `bestProvider`.
-/

namespace AstraVeil.Providers

/-! ### The first of the greatest elements -/

section FirstMax

variable {α β : Type*} {f : α → ℤ} {l : List α} {x y : α}

/-- `x` is the first of the elements with the highest value. -/
def IsFirstMax (f : α → ℤ) (l : List α) (x : α) : Prop :=
  ∃ pre post, l = pre ++ x :: post ∧ (∀ y ∈ pre, f y < f x) ∧ ∀ y ∈ post, f y ≤ f x

theorem IsFirstMax.mem (h : IsFirstMax f l x) : x ∈ l := by
  obtain ⟨pre, post, rfl, -, -⟩ := h
  simp

theorem IsFirstMax.le (h : IsFirstMax f l x) (hy : y ∈ l) : f y ≤ f x := by
  obtain ⟨pre, post, rfl, hpre, hpost⟩ := h
  rcases List.mem_append.1 hy with hy | hy
  · exact (hpre y hy).le
  · rcases List.mem_cons.1 hy with rfl | hy
    · exact le_rfl
    · exact hpost y hy

/-- Elements left out do not matter. -/
theorem IsFirstMax.filter {p : α → Bool} (h : IsFirstMax f l x) (hx : p x = true) :
    IsFirstMax f (l.filter p) x := by
  obtain ⟨pre, post, rfl, hpre, hpost⟩ := h
  refine ⟨pre.filter p, post.filter p, ?_, fun y hy => hpre y (List.mem_of_mem_filter hy),
    fun y hy => hpost y (List.mem_of_mem_filter hy)⟩
  rw [List.filter_append, List.filter_cons_of_pos hx]

theorem IsFirstMax.unique (hx : IsFirstMax f l x) (hy : IsFirstMax f l y) : x = y := by
  obtain ⟨pre, post, rfl, hpre, hpost⟩ := hx
  obtain ⟨pre', post', heq, hpre', hpost'⟩ := hy
  rcases List.append_eq_append_iff.1 heq with ⟨mid, rfl, hmid⟩ | ⟨mid, rfl, hmid⟩
  · cases mid with
    | nil => exact (List.cons.inj hmid).1
    | cons z mid =>
      -- `x` is in front of `y`, and `y` behind `x`
      obtain ⟨rfl, rfl⟩ := List.cons.inj hmid
      have hlt := hpre' x (by simp)
      have hle := hpost y (by simp)
      omega
  · cases mid with
    | nil => exact (List.cons.inj hmid).1.symm
    | cons z mid =>
      obtain ⟨rfl, rfl⟩ := List.cons.inj hmid
      have hlt := hpre y (by simp)
      have hle := hpost' x (by simp)
      omega

theorem isFirstMax_maxByFrom (l : List α) (best : α) (pre mid : List α)
    (hpre : ∀ y ∈ pre, f y < f best) (hmid : ∀ y ∈ mid, f y ≤ f best) :
    IsFirstMax f (pre ++ best :: (mid ++ l)) (maxByFrom f best l) := by
  induction l generalizing pre mid best with
  | nil => exact ⟨pre, mid, by simp [maxByFrom], hpre, hmid⟩
  | cons x l ih =>
    rw [maxByFrom]
    split_ifs with hlt
    · have hfront : ∀ y ∈ pre ++ best :: mid, f y < f x := by
        intro y hy
        rcases List.mem_append.1 hy with hy | hy
        · exact (hpre y hy).trans hlt
        · rcases List.mem_cons.1 hy with rfl | hy
          · exact hlt
          · exact (hmid y hy).trans_lt hlt
      simpa using ih x (pre ++ best :: mid) [] hfront (by simp)
    · have hbehind : ∀ y ∈ mid ++ [x], f y ≤ f best := by
        intro y hy
        rcases List.mem_append.1 hy with hy | hy
        · exact hmid y hy
        · obtain rfl := List.mem_singleton.1 hy
          exact not_lt.1 hlt
      simpa using ih best pre (mid ++ [x]) hpre hbehind

/-- `maxByOrNull` finds the first of the elements with the highest value. -/
theorem maxByOrNull_eq_some_iff : maxByOrNull f l = some x ↔ IsFirstMax f l x := by
  cases l with
  | nil => exact iff_of_false (by simp [maxByOrNull]) fun h => List.not_mem_nil h.mem
  | cons z l =>
    have hfound : IsFirstMax f (z :: l) (maxByFrom f z l) :=
      isFirstMax_maxByFrom l z [] [] (by simp) (by simp)
    rw [maxByOrNull, Option.some.injEq]
    exact ⟨fun h => h ▸ hfound, fun h => hfound.unique h⟩

theorem isFirstMax_map_iff {g : β → α} {l : List β} {x : α} :
    IsFirstMax f (l.map g) x ↔ ∃ z, IsFirstMax (f ∘ g) l z ∧ x = g z := by
  constructor
  · rintro ⟨pre, post, heq, hpre, hpost⟩
    obtain ⟨pre', tail, rfl, rfl, htail⟩ := List.map_eq_append_iff.1 heq
    obtain ⟨z, post', rfl, rfl, rfl⟩ := List.map_eq_cons_iff.1 htail
    exact ⟨z, ⟨pre', post', rfl, fun y hy => hpre _ (List.mem_map_of_mem hy),
      fun y hy => hpost _ (List.mem_map_of_mem hy)⟩, rfl⟩
  · rintro ⟨z, ⟨pre, post, rfl, hpre, hpost⟩, rfl⟩
    refine ⟨pre.map g, post.map g, by simp, ?_, ?_⟩
    · intro y hy
      obtain ⟨w, hw, rfl⟩ := List.mem_map.1 hy
      exact hpre w hw
    · intro y hy
      obtain ⟨w, hw, rfl⟩ := List.mem_map.1 hy
      exact hpost w hw

end FirstMax

/-! ### The selector -/

/-- `ProviderRequirement`. -/
structure ProviderRequirement where
  capability : ProviderCapability
  minScore : ℤ := 50
  allowFallback : Bool := true
  preferredProvider : Option String := none

/-- `ProviderSelectionResult`. -/
structure ProviderSelectionResult where
  providerId : String
  score : ℤ
  confidence : Float32
  reason : String
  fallback : Bool := false

namespace ProviderSelector

/-- `scoreFor`. -/
def scoreFor (report : ProviderReport) : ProviderCapability → ℤ
  | .rootExecution => report.executeScore
  | .mountNamespace => report.mountScore
  | .overlayFs => report.overlayFsScore
  | .systemProperty => report.propertyScore
  | .bootPatch => report.bootScore
  | .selinuxControl => report.overallScore

/-- `scored`. -/
def scored (requirement : ProviderRequirement) (detected : List ProviderReport) :
    List (ProviderReport × ℤ) :=
  (detected.map fun report => (report, scoreFor report requirement.capability)).filter
    fun x => decide (x.2 > 0)

/-- The result for the preferred backend. -/
def preferredResult (requirement : ProviderRequirement) (scored : List (ProviderReport × ℤ)) :
    Option ProviderSelectionResult :=
  requirement.preferredProvider.bind fun preferred =>
    (scored.find? fun x => x.1.providerId == preferred).bind fun found =>
      if found.2 ≥ requirement.minScore then
        some
          { providerId := found.1.providerId
            score := found.2
            confidence := Float32.ofInt found.2 / 100
            reason := "Preferred provider '" ++ preferred ++ "' qualifies" }
      else none

/-- The result for the backend with the highest score. -/
def bestResult (requirement : ProviderRequirement) (scored : List (ProviderReport × ℤ)) :
    Option ProviderSelectionResult :=
  (maxByOrNull Prod.snd scored).bind fun best =>
    let isFallback := decide (best.2 < requirement.minScore)
    if isFallback && !requirement.allowFallback then none
    else
      some
        { providerId := best.1.providerId
          score := best.2
          confidence := Float32.ofInt best.2 / 100
          reason :=
            if isFallback then "Best available (below minimum)" else "Highest capability score"
          fallback := isFallback }

/-- `select`. -/
def select (requirement : ProviderRequirement) (reports : List ProviderReport) :
    Option ProviderSelectionResult :=
  let detected := reports.filter ProviderReport.detected
  if detected.isEmpty then none
  else
    let scored := scored requirement detected
    if scored.isEmpty then none
    else (preferredResult requirement scored).or (bestResult requirement scored)

/-! ### The backends that are looked at -/

/-- The score of a backend for a capability. -/
def scoreOf (answers : Answers) (d : DeviceProfile) (capability : ProviderCapability)
    (p : RootProvider) : ℤ :=
  scoreFor (analyze answers p d) capability

/-- The backends with a positive score. -/
def candidates (backends : Backends) (answers : Answers) (d : DeviceProfile)
    (capability : ProviderCapability) : List RootProvider :=
  backends.list.filter fun p => decide (0 < scoreOf answers d capability p)

variable {backends : Backends} {answers : Answers} {d : DeviceProfile}
  {capability : ProviderCapability} {p : RootProvider} {req : ProviderRequirement}

theorem mem_candidates : p ∈ candidates backends answers d capability ↔
    p ∈ backends.list ∧ 0 < scoreOf answers d capability p := by
  rw [candidates, List.mem_filter, decide_eq_true_iff]

/-- A backend that is not there has no score. -/
theorem scoreOf_of_not_available (h : answers.available p = false) :
    scoreOf answers d capability p = 0 := by
  have hcaps : countedCapabilities answers p = [] := by
    simp [countedCapabilities, h]
  cases capability <;> simp [scoreOf, scoreFor, analyze, hcaps, coerceScore, overall]

theorem available_of_score_pos (h : 0 < scoreOf answers d capability p) :
    answers.available p = true := by
  by_contra hav
  rw [scoreOf_of_not_available (Bool.eq_false_of_not_eq_true hav)] at h
  exact lt_irrefl 0 h

/-- But for SELinux control a positive score means that the backend offers the capability. -/
theorem score_pos_iff (hne : capability ≠ .selinuxControl) :
    0 < scoreOf answers d capability p ↔
      answers.available p = true ∧ capability ∈ p.capabilities := by
  cases hav : answers.available p with
  | false => simp [scoreOf_of_not_available hav]
  | true =>
    have hcaps : countedCapabilities answers p = p.capabilities := by
      simp [countedCapabilities, hav]
    cases capability with
    | selinuxControl => exact absurd rfl hne
    | rootExecution =>
      by_cases hc : ProviderCapability.rootExecution ∈ p.capabilities <;>
        simp [scoreOf, scoreFor, analyze, hcaps, hc]
    | mountNamespace =>
      by_cases hc : ProviderCapability.mountNamespace ∈ p.capabilities <;>
        cases hs : isSamsung d <;>
        simp [scoreOf, scoreFor, analyze, hcaps, hc, hs, coerceScore]
    | overlayFs =>
      by_cases hc : ProviderCapability.overlayFs ∈ p.capabilities <;>
        cases hk : d.kernelOverlayFs <;> cases hx : isXiaomi d <;>
        simp [scoreOf, scoreFor, analyze, hcaps, hc, hk, hx, coerceScore]
    | systemProperty =>
      by_cases hc : ProviderCapability.systemProperty ∈ p.capabilities <;>
        simp [scoreOf, scoreFor, analyze, hcaps, hc]
    | bootPatch =>
      by_cases hc : ProviderCapability.bootPatch ∈ p.capabilities <;>
        cases hb : d.bootUnlocked <;>
        simp [scoreOf, scoreFor, analyze, hcaps, hc, hb]

/-- The mean of the positive scores is positive if there is one. -/
theorem overall_pos_iff {scores : List ℤ} : 0 < overall scores ↔ ∃ score ∈ scores, 0 < score := by
  have hsum : ∀ l : List ℤ, (∀ x ∈ l, 0 < x) → (l.length : ℤ) ≤ l.sum := by
    intro l hl
    induction l with
    | nil => simp
    | cons x l ih =>
      have hx := hl x List.mem_cons_self
      have hrest := ih fun y hy => hl y (List.mem_cons_of_mem _ hy)
      rw [List.length_cons, List.sum_cons]
      push_cast
      omega
  have hpos : ∀ x ∈ scores.filter (fun score => decide (score > 0)), 0 < x := by
    intro x hx
    simpa using (List.mem_filter.1 hx).2
  simp only [overall]
  split_ifs with hempty
  · rw [List.isEmpty_iff, List.filter_eq_nil_iff] at hempty
    simp only [lt_irrefl, false_iff]
    rintro ⟨score, hscore, hlt⟩
    exact hempty score hscore (decide_eq_true hlt)
  · obtain ⟨x, hx⟩ := List.exists_mem_of_ne_nil _ fun h => hempty (List.isEmpty_iff.2 h)
    have hlen : (0 : ℤ) < (scores.filter fun score => decide (score > 0)).length := by
      exact_mod_cast List.length_pos_of_mem hx
    refine iff_of_true ?_ ⟨x, List.mem_of_mem_filter hx, hpos x hx⟩
    have hone : (1 : ℤ) ≤ (scores.filter fun score => decide (score > 0)).sum /
        (scores.filter fun score => decide (score > 0)).length :=
      Int.le_ediv_of_mul_le hlen (by rw [one_mul]; exact hsum _ hpos)
    omega

/-- For SELinux control a positive score means that the backend offers something else. -/
theorem selinux_score_pos_iff :
    0 < scoreOf answers d .selinuxControl p ↔
      answers.available p = true ∧ ∃ c ∈ p.capabilities, c ≠ .selinuxControl := by
  cases hav : answers.available p with
  | false => simp [scoreOf_of_not_available hav]
  | true =>
    have hcaps : countedCapabilities answers p = p.capabilities := by
      simp [countedCapabilities, hav]
    have hoverall : scoreOf answers d .selinuxControl p =
        (analyze answers p d).overallScore := rfl
    rw [hoverall, analyze, overall_pos_iff, hcaps]
    simp only [List.mem_cons, List.not_mem_nil, or_false, true_and]
    constructor
    · rintro ⟨score, hscore, hpos⟩
      by_contra hnone
      have hno : ∀ c, c ≠ ProviderCapability.selinuxControl →
          p.capabilities.contains c = false := by
        intro c hc
        by_contra hcap
        exact hnone ⟨c, by simpa using hcap, hc⟩
      simp only [hno .rootExecution (by decide), hno .mountNamespace (by decide),
        hno .overlayFs (by decide), hno .systemProperty (by decide), hno .bootPatch (by decide),
        Bool.and_false, Bool.false_eq_true, if_false, lt_irrefl, decide_false,
        sub_zero, or_self] at hscore
      omega
    · rintro ⟨c, hc, hne⟩
      have hc' : p.capabilities.contains c = true := by simpa using hc
      cases c with
      | selinuxControl => exact absurd rfl hne
      | rootExecution => exact ⟨_, Or.inl rfl, by rw [if_pos hc']; decide⟩
      | mountNamespace =>
        refine ⟨_, Or.inr (Or.inr (Or.inl rfl)), ?_⟩
        rw [if_pos hc']
        split_ifs <;> decide
      | overlayFs =>
        refine ⟨_, Or.inr (Or.inr (Or.inr (Or.inl rfl))), ?_⟩
        rw [if_pos hc']
        split_ifs <;> decide
      | systemProperty =>
        exact ⟨_, Or.inr (Or.inr (Or.inr (Or.inr (Or.inl rfl)))), by rw [if_pos hc']; decide⟩
      | bootPatch =>
        refine ⟨_, Or.inr (Or.inr (Or.inr (Or.inr (Or.inr rfl)))), ?_⟩
        rw [if_pos hc']
        split_ifs <;> decide

/-- A report with its score. -/
def reported (answers : Answers) (d : DeviceProfile) (capability : ProviderCapability)
    (p : RootProvider) : ProviderReport × ℤ :=
  (analyze answers p d, scoreOf answers d capability p)

/-- The reports that the selector looks at. -/
theorem scored_fresh_eq :
    scored req ((Registry.fresh backends answers d).filter ProviderReport.detected) =
      (candidates backends answers d req.capability).map (reported answers d req.capability) := by
  unfold scored candidates Registry.fresh
  induction backends.list with
  | nil => rfl
  | cons p l ih =>
    have hdetected : (analyze answers p d).detected = answers.available p := rfl
    rw [List.map_cons, List.filter_cons, hdetected]
    cases hav : answers.available p with
    | false =>
      rw [List.filter_cons_of_neg (by simp [scoreOf_of_not_available hav])]
      exact ih
    | true =>
      rw [if_pos rfl, List.map_cons, List.filter_cons, List.filter_cons, ih]
      show (if decide (scoreOf answers d req.capability p > 0) = true then _ else _) = _
      split_ifs <;> rfl

theorem select_fresh :
    select req (Registry.fresh backends answers d) =
      (preferredResult req ((candidates backends answers d req.capability).map
        (reported answers d req.capability))).or
        (bestResult req ((candidates backends answers d req.capability).map
          (reported answers d req.capability))) := by
  have hnone : preferredResult req [] = none ∧ bestResult req [] = none := by
    constructor
    · unfold preferredResult
      cases req.preferredProvider <;> rfl
    · rfl
  simp only [select, ← scored_fresh_eq]
  split_ifs with hdetected hscored
  · rw [List.isEmpty_iff.1 hdetected]
    show none = (preferredResult req []).or (bestResult req [])
    rw [hnone.1, hnone.2, Option.or_none]
  · rw [List.isEmpty_iff.1 hscored, hnone.1, hnone.2, Option.or_none]
  · rfl

/-! ### The selected backend -/

/-- The preferred backend, with a score that reaches the minimum. -/
def Prefers (backends : Backends) (answers : Answers) (d : DeviceProfile)
    (req : ProviderRequirement) (p : RootProvider) : Prop :=
  p ∈ candidates backends answers d req.capability ∧ req.preferredProvider = some p.id ∧
    req.minScore ≤ scoreOf answers d req.capability p

/-- The first of the backends with the highest score, if that is enough. -/
def Leads (backends : Backends) (answers : Answers) (d : DeviceProfile)
    (req : ProviderRequirement) (p : RootProvider) : Prop :=
  IsFirstMax (scoreOf answers d req.capability) (candidates backends answers d req.capability) p ∧
    (req.minScore ≤ scoreOf answers d req.capability p ∨ req.allowFallback = true)

/-- The backend that the requirement selects. -/
def Wins (backends : Backends) (answers : Answers) (d : DeviceProfile)
    (req : ProviderRequirement) (p : RootProvider) : Prop :=
  Prefers backends answers d req p ∨
    (∀ q, ¬ Prefers backends answers d req q) ∧ Leads backends answers d req p

theorem Wins.mem (h : Wins backends answers d req p) :
    p ∈ candidates backends answers d req.capability := by
  rcases h with h | ⟨-, h, -⟩
  · exact h.1
  · exact h.mem

theorem find?_candidates {preferred : String} :
    (candidates backends answers d capability).find? (fun p => p.id == preferred) = some p ↔
      p ∈ candidates backends answers d capability ∧ p.id = preferred := by
  have hnodup : ((candidates backends answers d capability).map RootProvider.id).Nodup :=
    backends.nodup.sublist (List.filter_sublist.map _)
  constructor
  · intro h
    exact ⟨List.mem_of_find?_eq_some h, by simpa using List.find?_some h⟩
  · rintro ⟨hp, rfl⟩
    exact Registry.find?_id_of_mem hnodup hp

/-- What the result says of the backend. -/
structure ResultFor (answers : Answers) (d : DeviceProfile) (req : ProviderRequirement)
    (p : RootProvider) (r : ProviderSelectionResult) : Prop where
  providerId : r.providerId = p.id
  score : r.score = scoreOf answers d req.capability p
  fallback : r.fallback = decide (scoreOf answers d req.capability p < req.minScore)

theorem preferredResult_spec :
    (∀ r, preferredResult req ((candidates backends answers d req.capability).map
        (reported answers d req.capability)) = some r →
      ∃ p, Prefers backends answers d req p ∧ ResultFor answers d req p r) ∧
    (preferredResult req ((candidates backends answers d req.capability).map
        (reported answers d req.capability)) = none →
      ∀ p, ¬ Prefers backends answers d req p) := by
  unfold preferredResult
  cases hpreferred : req.preferredProvider with
  | none => exact ⟨by simp, fun _ p hp => by simp [Prefers, hpreferred] at hp⟩
  | some preferred =>
    have hfind : ((candidates backends answers d req.capability).map
          (reported answers d req.capability)).find? (fun x => x.1.providerId == preferred) =
        ((candidates backends answers d req.capability).find? fun p => p.id == preferred).map
          (reported answers d req.capability) := List.find?_map
    simp only [Option.bind_some, hfind]
    cases hfound : (candidates backends answers d req.capability).find?
        fun p => p.id == preferred with
    | none =>
      refine ⟨by simp, fun _ p hp => ?_⟩
      have hid : p.id = preferred := by
        simpa [hpreferred, eq_comm] using hp.2.1
      rw [find?_candidates.2 ⟨hp.1, hid⟩] at hfound
      cases hfound
    | some p =>
      obtain ⟨hp, rfl⟩ := find?_candidates.1 hfound
      simp only [Option.map_some, Option.bind_some, ge_iff_le]
      split_ifs with hmin
      · refine ⟨fun r hr => ⟨p, ⟨hp, hpreferred, hmin⟩, ?_⟩, by simp⟩
        obtain rfl := Option.some.inj hr
        exact ⟨rfl, rfl, (decide_eq_false (not_lt.2 hmin)).symm⟩
      · refine ⟨by simp, fun _ q hq => hmin ?_⟩
        have hid : q.id = p.id := by
          simpa [hpreferred, eq_comm] using hq.2.1
        obtain rfl : q = p := by
          have hsame := find?_candidates.2 ⟨hq.1, hid⟩
          rw [hfound] at hsame
          exact (Option.some.inj hsame).symm
        exact hq.2.2

theorem bestResult_spec :
    (∀ r, bestResult req ((candidates backends answers d req.capability).map
        (reported answers d req.capability)) = some r →
      ∃ p, Leads backends answers d req p ∧ ResultFor answers d req p r) ∧
    (bestResult req ((candidates backends answers d req.capability).map
        (reported answers d req.capability)) = none →
      ∀ p, ¬ Leads backends answers d req p) := by
  cases hbest : maxByOrNull Prod.snd ((candidates backends answers d req.capability).map
      (reported answers d req.capability)) with
  | none =>
    refine ⟨fun r hr => ?_, fun _ p hp => ?_⟩
    · rw [bestResult, hbest] at hr
      cases hr
    · have hmap : IsFirstMax Prod.snd ((candidates backends answers d req.capability).map
          (reported answers d req.capability)) (reported answers d req.capability p) :=
        isFirstMax_map_iff.2 ⟨p, hp.1, rfl⟩
      rw [maxByOrNull_eq_some_iff.2 hmap] at hbest
      cases hbest
  | some best =>
    obtain ⟨p, hp, rfl⟩ := isFirstMax_map_iff.1 (maxByOrNull_eq_some_iff.1 hbest)
    have hleads : IsFirstMax (scoreOf answers d req.capability)
        (candidates backends answers d req.capability) p := hp
    obtain ⟨result, hfor, hresult⟩ : ∃ result, ResultFor answers d req p result ∧
        bestResult req ((candidates backends answers d req.capability).map
          (reported answers d req.capability)) =
        if (decide (scoreOf answers d req.capability p < req.minScore) &&
          !req.allowFallback) = true then none else some result :=
      ⟨_, ⟨rfl, rfl, rfl⟩, by rw [bestResult, hbest]; rfl⟩
    rw [hresult]
    split_ifs with hlow
    · refine ⟨by simp, fun _ q hq => ?_⟩
      obtain rfl := hleads.unique hq.1
      obtain ⟨hbelow, hno⟩ := Bool.and_eq_true_iff.1 hlow
      rcases hq.2 with h | h
      · exact absurd (of_decide_eq_true hbelow) (not_lt.2 h)
      · rw [h] at hno
        cases hno
    · refine ⟨fun r hr => ⟨p, ⟨hleads, ?_⟩, Option.some.inj hr ▸ hfor⟩, by simp⟩
      by_contra hneither
      rw [not_or] at hneither
      exact hlow (by simp [not_le.1 hneither.1, Bool.eq_false_of_not_eq_true hneither.2])

/-- The selected backend wins. -/
theorem exists_wins_of_select {r : ProviderSelectionResult}
    (h : select req (Registry.fresh backends answers d) = some r) :
    ∃ p, Wins backends answers d req p ∧ ResultFor answers d req p r := by
  rw [select_fresh] at h
  rcases Option.or_eq_some_iff.1 h with hr | ⟨hnone, hr⟩
  · obtain ⟨p, hp, hfor⟩ := preferredResult_spec.1 r hr
    exact ⟨p, Or.inl hp, hfor⟩
  · obtain ⟨p, hp, hfor⟩ := bestResult_spec.1 r hr
    exact ⟨p, Or.inr ⟨preferredResult_spec.2 hnone, hp⟩, hfor⟩

/-- The backend that wins is selected. -/
theorem exists_select_of_wins (h : Wins backends answers d req p) :
    ∃ r, select req (Registry.fresh backends answers d) = some r ∧ ResultFor answers d req p r := by
  have hsame : ∀ q, Wins backends answers d req q → q = p := by
    intro q hq
    rcases hq with hq | ⟨hnone, hq⟩ <;> rcases h with hp | ⟨hnone', hp⟩
    · have hid : q.id = p.id := by simpa [hq.2.1] using hp.2.1
      have hq' := find?_candidates.2 ⟨hq.1, hid⟩
      rw [find?_candidates.2 ⟨hp.1, rfl⟩] at hq'
      exact (Option.some.inj hq').symm
    · exact absurd hq (hnone' q)
    · exact absurd hp (hnone p)
    · exact hq.1.unique hp.1
  cases hselect : select req (Registry.fresh backends answers d) with
  | some r =>
    obtain ⟨q, hq, hfor⟩ := exists_wins_of_select hselect
    exact ⟨r, rfl, hsame q hq ▸ hfor⟩
  | none =>
    rw [select_fresh, Option.or_eq_none_iff] at hselect
    rcases h with h | ⟨-, h⟩
    · exact absurd h (preferredResult_spec.2 hselect.1 p)
    · exact absurd h (bestResult_spec.2 hselect.2 p)

/-! ### Capabilities -/

/-- A result names an available backend that advertises the capability; if it is no fallback, its
score reaches the minimum and the backend is the preferred one or has the highest score; and without
preference and minimum it is that of `bestProvider`, where that has a positive score. -/
structure Honours (backends : Backends) (answers : Answers) (d : DeviceProfile)
    (req : ProviderRequirement) : Prop where
  advertised : ∀ r, select req (Registry.fresh backends answers d) = some r →
    ∃ p ∈ backends.list, p.id = r.providerId ∧ answers.available p = true ∧
      req.capability ∈ p.capabilities
  best : ∀ r, select req (Registry.fresh backends answers d) = some r → r.fallback = false →
    req.minScore ≤ r.score ∧ (req.preferredProvider = some r.providerId ∨
      ∀ q ∈ backends.list, req.capability ∈ q.capabilities →
        scoreOf answers d req.capability q ≤ r.score)
  agrees : req.preferredProvider = none → req.minScore = 0 → ∀ p,
    (Registry.bestProvider backends answers req.capability d Registry.new).1 = some p →
    0 < scoreOf answers d req.capability p →
    ∃ r, select req (Registry.fresh backends answers d) = some r ∧ r.providerId = p.id

/-- What wins by its overall score advertises SELinux control. -/
structure SelinuxAdvertised (backends : Backends) (answers : Answers) (d : DeviceProfile)
    (req : ProviderRequirement) : Prop where
  preferred : ∀ p, Prefers backends answers d req p → .selinuxControl ∈ p.capabilities
  first : (∀ q, ¬ Prefers backends answers d req q) →
    ∀ p, Leads backends answers d req p → .selinuxControl ∈ p.capabilities

theorem scoreFor_eq (report : ProviderReport) (capability : ProviderCapability) :
    scoreFor report capability = Registry.scoreFor report capability := by
  cases capability <;> rfl

/-- What `bestProvider` gives is the first of the best backends that offer the capability. -/
theorem isFirstMax_of_bestProvider
    (h : (Registry.bestProvider backends answers capability d Registry.new).1 = some p) :
    IsFirstMax (scoreOf answers d capability) (Registry.offering backends answers capability)
      p := by
  obtain ⟨best, hbest, rfl⟩ := Option.map_eq_some_iff.1
    (show (maxByOrNull Prod.snd (Registry.scored backends capability
      (Registry.fresh backends answers d))).map Prod.fst = some p from h)
  rw [maxByOrNull_eq_some_iff, Registry.scored_fresh, isFirstMax_map_iff] at hbest
  obtain ⟨q, hq, rfl⟩ := hbest
  have hscore : (Prod.snd ∘ fun p : RootProvider =>
      (p, Registry.scoreFor (analyze answers p d) capability)) = scoreOf answers d capability := by
    funext q
    exact (scoreFor_eq (analyze answers q d) capability).symm
  rwa [hscore] at hq

/-- The best of the backends with a positive score, if it offers the capability, is the best of
those that offer it. -/
theorem eq_of_isFirstMax {q : RootProvider}
    (hp : IsFirstMax (scoreOf answers d capability)
      (Registry.offering backends answers capability) p)
    (hpos : 0 < scoreOf answers d capability p)
    (hq : IsFirstMax (scoreOf answers d capability) (candidates backends answers d capability) q)
    (hoffer : q ∈ Registry.offering backends answers capability) : p = q := by
  have hp' := hp.filter (p := fun x => decide (0 < scoreOf answers d capability x))
    (decide_eq_true hpos)
  have hq' := hq.filter (p := fun x => answers.available x && x.capabilities.contains capability)
    (List.mem_filter.1 hoffer).2
  rw [candidates, List.filter_comm] at hq'
  exact hp'.unique hq'

/-- The law holds when the backends that win advertise the capability. -/
theorem honours_iff_wins :
    Honours backends answers d req ↔
      ∀ p, Wins backends answers d req p → req.capability ∈ p.capabilities := by
  constructor
  · intro h p hp
    obtain ⟨r, hr, hfor⟩ := exists_select_of_wins hp
    obtain ⟨q, hq, hid, -, hcap⟩ := h.advertised r hr
    have hp' := Registry.byId_of_mem (mem_candidates.1 hp.mem).1
    rw [← hfor.providerId, ← hid, Registry.byId_of_mem hq] at hp'
    exact Option.some.inj hp' ▸ hcap
  · intro h
    refine ⟨fun r hr => ?_, fun r hr hfallback => ?_, fun hnone hmin p hp hpos => ?_⟩
    · obtain ⟨p, hp, hfor⟩ := exists_wins_of_select hr
      obtain ⟨hmem, hpos⟩ := mem_candidates.1 hp.mem
      exact ⟨p, hmem, hfor.providerId.symm, available_of_score_pos hpos, h p hp⟩
    · obtain ⟨p, hp, hfor⟩ := exists_wins_of_select hr
      rw [hfor.fallback] at hfallback
      rw [hfor.score, hfor.providerId]
      refine ⟨not_lt.1 (of_decide_eq_false hfallback), ?_⟩
      rcases hp with hp | ⟨-, hp⟩
      · exact Or.inl hp.2.1
      · refine Or.inr fun q hq _ => ?_
        by_cases hpos : 0 < scoreOf answers d req.capability q
        · exact hp.1.le (mem_candidates.2 ⟨hq, hpos⟩)
        · exact (not_lt.1 hpos).trans (mem_candidates.1 hp.1.mem).2.le
    · have hbest := isFirstMax_of_bestProvider hp
      have hmem : p ∈ candidates backends answers d req.capability :=
        mem_candidates.2 ⟨(List.mem_filter.1 hbest.mem).1, hpos⟩
      obtain ⟨q, hq⟩ : ∃ q, IsFirstMax (scoreOf answers d req.capability)
          (candidates backends answers d req.capability) q := by
        cases hmax : maxByOrNull (scoreOf answers d req.capability)
            (candidates backends answers d req.capability) with
        | some q => exact ⟨q, maxByOrNull_eq_some_iff.1 hmax⟩
        | none =>
          cases hc : candidates backends answers d req.capability with
          | nil =>
            rw [hc] at hmem
            cases hmem
          | cons x l =>
            rw [hc] at hmax
            cases hmax
      have hqpos := (mem_candidates.1 hq.mem).2
      have hwins : Wins backends answers d req q :=
        Or.inr ⟨fun x hx => by simp [Prefers, hnone] at hx, hq,
          Or.inl (by rw [hmin]; exact hqpos.le)⟩
      have hoffer : q ∈ Registry.offering backends answers req.capability :=
        List.mem_filter.2 ⟨(mem_candidates.1 hq.mem).1, by
          simp [available_of_score_pos hqpos, h q hwins]⟩
      obtain rfl := eq_of_isFirstMax hbest hpos hq hoffer
      obtain ⟨r, hr, hfor⟩ := exists_select_of_wins hwins
      exact ⟨r, hr, hfor.providerId⟩

/-- **The selection honours the capabilities for every requirement but one of SELinux control, and
for one of these exactly where the backend that wins by its overall score advertises it.** -/
theorem honours_iff (backends : Backends) (answers : Answers) (d : DeviceProfile)
    (req : ProviderRequirement) :
    Honours backends answers d req ↔
      (req.capability = .selinuxControl → SelinuxAdvertised backends answers d req) := by
  rw [honours_iff_wins]
  by_cases hcap : req.capability = .selinuxControl
  · rw [hcap]
    constructor
    · intro h _
      exact ⟨fun p hp => h p (Or.inl hp), fun hnone p hp => h p (Or.inr ⟨hnone, hp⟩)⟩
    · intro h p hp
      rcases hp with hp | ⟨hnone, hp⟩
      · exact (h rfl).preferred p hp
      · exact (h rfl).first hnone p hp
  · refine iff_of_true (fun p hp => ?_) fun h => absurd h hcap
    exact ((score_pos_iff hcap).1 (mem_candidates.1 hp.mem).2).2

/-- A backend that can run commands and nothing else. -/
def bareSu : RootProvider := ⟨"su", "su", [.rootExecution]⟩

/-- This backend and Magisk. -/
def suAndMagisk : Backends where
  list := [bareSu, magisk]
  nodup := by decide

/-- For SELinux control the backend that can only run commands is selected. -/
theorem not_honours_selinux :
    ¬ Honours suAndMagisk Registry.allAvailable Registry.unlockedDevice
      { capability := .selinuxControl } := by
  intro h
  have hscores :
      scoreOf Registry.allAvailable Registry.unlockedDevice .selinuxControl bareSu = 100 ∧
      scoreOf Registry.allAvailable Registry.unlockedDevice .selinuxControl magisk = 87 := by
    decide +kernel
  have hcandidates : candidates suAndMagisk Registry.allAvailable Registry.unlockedDevice
      .selinuxControl = [bareSu, magisk] := by
    decide +kernel
  have hfirst : IsFirstMax
      (scoreOf Registry.allAvailable Registry.unlockedDevice .selinuxControl)
      (candidates suAndMagisk Registry.allAvailable Registry.unlockedDevice .selinuxControl)
      bareSu := by
    refine ⟨[], [magisk], hcandidates, by simp, fun q hq => ?_⟩
    obtain rfl := List.mem_singleton.1 hq
    rw [hscores.1, hscores.2]
    decide
  have hwins : Wins suAndMagisk Registry.allAvailable Registry.unlockedDevice
      { capability := .selinuxControl } bareSu :=
    Or.inr ⟨fun q hq => by simp [Prefers] at hq, hfirst, Or.inr rfl⟩
  exact absurd (honours_iff_wins.1 h bareSu hwins) (by decide)

end ProviderSelector

end AstraVeil.Providers
