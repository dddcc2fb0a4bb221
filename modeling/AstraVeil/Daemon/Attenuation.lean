import AstraVeil.Daemon.CapabilityTree

/-!
# Capability attenuation

Every operation of the delegation tree keeps the linking invariant `WF`, and the two recursive
walks return with the fuel they are given.

* `wf_delegate`: a fresh child is the youngest node;
* `Revoked`: what a cascading revocation does: no node loses the capability without all entries
  of its child list losing it;
* `Pruned`: what a removal does: both maps only shrink;
* `attenuation`: the resulting law over all sequences of operations.
-/

namespace AstraVeil.Daemon.CapabilityTree

variable {t t' t'' : CapabilityTree} {rank : String → ℕ} {bound : ℕ}

theorem exists_lookup_of_mem {k : String} (h : k ∈ t.nodes) : ∃ n, t.nodes.lookup k = some n :=
  Option.isSome_iff_exists.1 (AList.lookup_isSome.2 h)

theorem WF.parent_mem (h : WF t rank bound) {k : String} {n : CapabilityNode}
    (hk : t.nodes.lookup k = some n) (hne : k ≠ rootId) : n.parentId ∈ t.nodes := by
  obtain ⟨p, hp, -⟩ := h.parent k n hk hne
  exact mem_nodes_of_lookup hp

/-! ### Delegation -/

/-- A refused delegation changes nothing. -/
theorem delegate_refused {p c : String} {caps : Finset String}
    (h : (t.delegate p c caps).2 = false) : (t.delegate p c caps).1 = t := by
  unfold delegate at h ⊢
  cases hp : t.nodes.lookup p with
  | none => rfl
  | some parent =>
    rw [hp] at h
    simp only at h ⊢
    split_ifs at h ⊢ <;> rfl

/-- An accepted delegation, with everything that was checked. -/
theorem delegate_accepted {p c : String} {caps : Finset String}
    (h : (t.delegate p c caps).2 = true) :
    ∃ parent, t.nodes.lookup p = some parent ∧ c ∉ t.nodes ∧ caps ⊆ parent.capabilities ∧
      (t.delegate p c caps).1 =
        ⟨t.nodes.insert c ⟨c, p, caps, parent.depth + 1⟩,
          (t.children.insert p ((t.children.lookup p).getD [] ++ [c])).insert c []⟩ := by
  unfold delegate at h ⊢
  cases hp : t.nodes.lookup p with
  | none => rw [hp] at h; cases h
  | some parent =>
    rw [hp] at h
    simp only at h ⊢
    split_ifs at h ⊢ with h1 h2
    exact ⟨parent, rfl, h1, h2, rfl⟩

section Delegated

variable {p c : String} {caps : Finset String} {parent : CapabilityNode} {sibs : List String}

theorem lookup_insert_cases {β : Type} {s : AList fun _ : String => β} {k c : String} {n m : β}
    (h : (s.insert c n).lookup k = some m) : (k = c ∧ m = n) ∨ (k ≠ c ∧ s.lookup k = some m) := by
  by_cases hkc : k = c
  · subst hkc
    rw [AList.lookup_insert] at h
    exact Or.inl ⟨rfl, (Option.some.inj h).symm⟩
  · rw [AList.lookup_insert_ne hkc] at h
    exact Or.inr ⟨hkc, h⟩

/-- The child lists after a delegation, by owner. -/
theorem children_delegated (h : WF t rank bound) {k : String} {cs : List String}
    (hk : ((t.children.insert p (sibs ++ [c])).insert c []).lookup k = some cs) :
    (k = c ∧ cs = []) ∨ (k = p ∧ cs = sibs ++ [c]) ∨
      (k ∈ t.nodes ∧ t.children.lookup k = some cs) := by
  rcases lookup_insert_cases hk with hkc | ⟨-, hk⟩
  · exact Or.inl hkc
  rcases lookup_insert_cases hk with hkp | ⟨-, hk⟩
  · exact Or.inr (Or.inl hkp)
  · refine Or.inr (Or.inr ⟨(h.keys k).1 ?_, hk⟩)
    rw [← AList.lookup_isSome, hk]; rfl

/-- The new child is the youngest node. -/
theorem rank_delegated (h : WF t rank bound) (hc : c ∉ t.nodes) {k x : String} (hk : k ∈ t.nodes)
    (hx : x ≠ c → x ∈ t.nodes ∧ rank k < rank x) :
    Function.update rank c bound k < Function.update rank c bound x := by
  have hkc : k ≠ c := fun he => hc (he ▸ hk)
  rw [Function.update_of_ne hkc]
  by_cases hxc : x = c
  · rw [hxc, Function.update_self]
    exact h.bounded k hk
  · rw [Function.update_of_ne hxc]
    exact (hx hxc).2

/-- Every node stands in the child list of its parent, the new one included. -/
theorem linked_delegated (h : WF t rank bound) (hp : t.nodes.lookup p = some parent)
    (hc : c ∉ t.nodes) (hsibs : t.children.lookup p = some sibs) {k : String} {n : CapabilityNode}
    (hk : (t.nodes.insert c ⟨c, p, caps, parent.depth + 1⟩).lookup k = some n) (hkr : k ≠ rootId) :
    ∃ cs, ((t.children.insert p (sibs ++ [c])).insert c []).lookup n.parentId = some cs ∧
      k ∈ cs := by
  have hne : ∀ {k}, k ∈ t.nodes → k ≠ c := fun hk he => hc (he ▸ hk)
  rcases lookup_insert_cases hk with ⟨rfl, rfl⟩ | ⟨-, hk⟩
  · refine ⟨sibs ++ [k], ?_, by simp⟩
    rw [AList.lookup_insert_ne (hne (mem_nodes_of_lookup hp)), AList.lookup_insert]
  · obtain ⟨cs, hcs, hmem⟩ := h.linked k n hk hkr
    rw [AList.lookup_insert_ne (hne (h.parent_mem hk hkr))]
    by_cases hqp : n.parentId = p
    · rw [hqp, hsibs] at hcs
      cases hcs
      exact ⟨sibs ++ [c], by rw [hqp, AList.lookup_insert], List.mem_append_left _ hmem⟩
    · exact ⟨cs, by rw [AList.lookup_insert_ne hqp]; exact hcs, hmem⟩

theorem wf_delegate_accepted (h : WF t rank bound) (hp : t.nodes.lookup p = some parent)
    (hc : c ∉ t.nodes) (hcaps : caps ⊆ parent.capabilities) :
    WF ⟨t.nodes.insert c ⟨c, p, caps, parent.depth + 1⟩,
      (t.children.insert p ((t.children.lookup p).getD [] ++ [c])).insert c []⟩
      (Function.update rank c bound) (bound + 1) := by
  have hpm : p ∈ t.nodes := mem_nodes_of_lookup hp
  have hne : ∀ {k}, k ∈ t.nodes → k ≠ c := fun hk he => hc (he ▸ hk)
  obtain ⟨r, hr, hr0⟩ := h.root p hpm
  have hroot : rootId ≠ c := hne (mem_nodes_of_lookup hr)
  obtain ⟨sibs, hsibs⟩ : ∃ cs, t.children.lookup p = some cs :=
    Option.isSome_iff_exists.1 (AList.lookup_isSome.2 ((h.keys p).2 hpm))
  rw [hsibs, Option.getD_some]
  refine ⟨?_, ?_, fun k n hk hkr => linked_delegated h hp hc hsibs hk hkr, ?_, ?_, ?_, ?_⟩
  · intro k _
    exact ⟨r, by rw [AList.lookup_insert_ne hroot]; exact hr, hr0⟩
  · intro k n hk hkr
    rcases lookup_insert_cases hk with ⟨rfl, rfl⟩ | ⟨-, hk⟩
    · exact ⟨parent, by rw [AList.lookup_insert_ne (hne hpm)]; exact hp, rfl, hcaps⟩
    · obtain ⟨q, hq, hd, hs⟩ := h.parent k n hk hkr
      exact ⟨q, by rw [AList.lookup_insert_ne (hne (mem_nodes_of_lookup hq))]; exact hq, hd, hs⟩
  · intro k
    rw [AList.mem_insert, AList.mem_insert, AList.mem_insert, h.keys]
    constructor
    · rintro (rfl | rfl | hk)
      · exact Or.inl rfl
      · exact Or.inr hpm
      · exact Or.inr hk
    · rintro (rfl | hk)
      · exact Or.inl rfl
      · exact Or.inr (Or.inr hk)
  · intro k cs hk
    rcases children_delegated h hk with ⟨-, rfl⟩ | ⟨-, rfl⟩ | ⟨-, hk'⟩
    · simp
    · simpa [hroot] using h.rootFree p sibs hsibs
    · exact h.rootFree k cs hk'
  · intro k cs x hk hx hxm
    have hxt : x ≠ c → x ∈ t.nodes := ((AList.mem_insert _).1 hxm).resolve_left
    rcases children_delegated h hk with ⟨-, rfl⟩ | ⟨rfl, rfl⟩ | ⟨hkm, hk'⟩
    · simp at hx
    · -- the new child, or an older entry of the same list
      refine rank_delegated h hc hpm fun hxc => ⟨hxt hxc, ?_⟩
      exact h.ranked k sibs x hsibs (by simpa [hxc] using hx) (hxt hxc)
    · exact rank_delegated h hc hkm fun hxc => ⟨hxt hxc, h.ranked k cs x hk' hx (hxt hxc)⟩
  · intro k hk
    rw [AList.mem_insert] at hk
    by_cases hkc : k = c
    · rw [hkc, Function.update_self]; omega
    · have hkt : k ∈ t.nodes := hk.resolve_left hkc
      rw [Function.update_of_ne hkc]
      exact (h.bounded k hkt).trans (Nat.lt_succ_self _)

end Delegated

theorem wf_delegate (h : WF t rank bound) (p c : String) (caps : Finset String) :
    ∃ rank' bound', WF (t.delegate p c caps).1 rank' bound' := by
  cases hr : (t.delegate p c caps).2 with
  | false => exact ⟨rank, bound, by rw [delegate_refused hr]; exact h⟩
  | true =>
    obtain ⟨parent, hp, hc, hcaps, he⟩ := delegate_accepted hr
    exact ⟨_, _, by rw [he]; exact wf_delegate_accepted h hp hc hcaps⟩

/-! ### Fuel -/

/-- The number of stored nodes younger than `k`. -/
def younger (t : CapabilityTree) (rank : String → ℕ) (k : String) : ℕ :=
  (t.nodes.keys.toFinset.filter fun j => rank k < rank j).card

/-- The walk from `k` ends within `fuel` calls: at once if `k` is not stored, and otherwise after
descending through nodes that get younger and younger. -/
def Enough (t : CapabilityTree) (rank : String → ℕ) (fuel : ℕ) (k : String) : Prop :=
  0 < fuel ∧ (k ∈ t.nodes → younger t rank k + 1 < fuel)

theorem younger_mono (hsub : ∀ k, k ∈ t'.nodes → k ∈ t.nodes) (k : String) :
    younger t' rank k ≤ younger t rank k := by
  apply Finset.card_le_card
  intro j hj
  simp only [Finset.mem_filter, List.mem_toFinset] at hj ⊢
  exact ⟨hsub j hj.1, hj.2⟩

theorem Enough.mono (hsub : ∀ k, k ∈ t'.nodes → k ∈ t.nodes) {fuel : ℕ} {k : String}
    (h : Enough t rank fuel k) : Enough t' rank fuel k := by
  refine ⟨h.1, fun hk => ?_⟩
  have h1 := h.2 (hsub k hk)
  have h2 : younger t' rank k ≤ younger t rank k := younger_mono hsub k
  omega

theorem Enough.child {fuel : ℕ} {k c : String} (h : Enough t rank (fuel + 1) k)
    (hk : k ∈ t.nodes) (hrank : c ∈ t.nodes → rank k < rank c) : Enough t rank fuel c := by
  have hlt := h.2 hk
  refine ⟨by omega, fun hc => ?_⟩
  have hyoung : younger t rank c < younger t rank k := by
    apply Finset.card_lt_card
    rw [Finset.ssubset_iff_of_subset]
    · refine ⟨c, ?_, ?_⟩
      · simp only [Finset.mem_filter, List.mem_toFinset]
        exact ⟨hc, hrank hc⟩
      · simp
    · intro j hj
      simp only [Finset.mem_filter, List.mem_toFinset] at hj ⊢
      exact ⟨hj.1, (hrank hc).trans hj.2⟩
  omega

theorem enough_fuel (t : CapabilityTree) (rank : String → ℕ) (k : String) :
    Enough t rank t.fuel k := by
  refine ⟨Nat.succ_pos _, fun hk => ?_⟩
  have hlt : younger t rank k < t.nodes.keys.toFinset.card := by
    apply Finset.card_lt_card
    rw [Finset.ssubset_iff_of_subset (Finset.filter_subset _ _)]
    exact ⟨k, List.mem_toFinset.2 hk, by simp⟩
  have hle := t.nodes.keys.toFinset_card_le
  unfold fuel
  omega

/-! ### Revocation -/

/-- `t'` is `t` with `cap` taken from some of the nodes. -/
structure Weakened (cap : String) (t t' : CapabilityTree) : Prop where
  children : t'.children = t.children
  lookup : ∀ k, t'.nodes.lookup k = t.nodes.lookup k ∨ ∃ n, t.nodes.lookup k = some n ∧
    t'.nodes.lookup k = some { n with capabilities := n.capabilities.erase cap }

/-- A revocation of `cap`: the entries of a child list follow the owner of the list. -/
structure Revoked (cap : String) (t t' : CapabilityTree) : Prop extends Weakened cap t t' where
  closed : ∀ k, t.hasCapability k cap = true → t'.hasCapability k cap = false →
    ∀ cs c, t.children.lookup k = some cs → c ∈ cs → t'.hasCapability c cap = false

namespace Weakened

variable {cap : String}

theorem refl (t : CapabilityTree) : Weakened cap t t := ⟨rfl, fun _ => Or.inl rfl⟩

theorem trans (h : Weakened cap t t') (h' : Weakened cap t' t'') : Weakened cap t t'' := by
  refine ⟨h'.children.trans h.children, fun k => ?_⟩
  rcases h'.lookup k with e' | ⟨n', hn', e'⟩
  · rw [e']; exact h.lookup k
  · rcases h.lookup k with e | ⟨n, hn, e⟩
    · exact Or.inr ⟨n', e ▸ hn', e'⟩
    · rw [hn'] at e
      cases e
      exact Or.inr ⟨n, hn, by rw [e', Finset.erase_idem]⟩

theorem mem_iff (h : Weakened cap t t') (k : String) : k ∈ t'.nodes ↔ k ∈ t.nodes := by
  rw [← AList.lookup_isSome, ← AList.lookup_isSome]
  rcases h.lookup k with e | ⟨n, hn, e⟩
  · rw [e]
  · rw [e, hn]; rfl

/-- No node gains the capability. -/
theorem lost (h : Weakened cap t t') {k : String} (hk : t.hasCapability k cap = false) :
    t'.hasCapability k cap = false := by
  unfold hasCapability at hk ⊢
  rcases h.lookup k with e | ⟨n, hn, e⟩
  · rw [e]; exact hk
  · rw [e]; simp

/-- A node afterwards comes from a node before. -/
theorem source (h : Weakened cap t t') {k : String} {n' : CapabilityNode}
    (hk : t'.nodes.lookup k = some n') :
    ∃ n, t.nodes.lookup k = some n ∧ n'.parentId = n.parentId ∧ n'.depth = n.depth ∧
      n'.capabilities ⊆ n.capabilities := by
  rcases h.lookup k with e | ⟨n, hn, e⟩
  · exact ⟨n', e ▸ hk, rfl, rfl, Finset.Subset.refl _⟩
  · rw [hk] at e
    cases e
    exact ⟨n, hn, rfl, rfl, Finset.erase_subset _ _⟩

/-- A node before has an image afterwards, which keeps every other capability. -/
theorem image (h : Weakened cap t t') {k : String} {n : CapabilityNode}
    (hk : t.nodes.lookup k = some n) :
    ∃ n', t'.nodes.lookup k = some n' ∧ n'.parentId = n.parentId ∧ n'.depth = n.depth ∧
      ∀ x ∈ n.capabilities, x ≠ cap → x ∈ n'.capabilities := by
  rcases h.lookup k with e | ⟨m, hm, e⟩
  · exact ⟨n, e.trans hk, rfl, rfl, fun x hx _ => hx⟩
  · rw [hk] at hm
    cases hm
    exact ⟨_, e, rfl, rfl, fun x hx hne => Finset.mem_erase.2 ⟨hne, hx⟩⟩

end Weakened

theorem hasCapability_eq_true {k cap : String} :
    t.hasCapability k cap = true ↔ ∃ n, t.nodes.lookup k = some n ∧ cap ∈ n.capabilities := by
  unfold hasCapability
  cases t.nodes.lookup k <;> simp

theorem Revoked.refl (cap : String) (t : CapabilityTree) : Revoked cap t t :=
  ⟨Weakened.refl t, fun k h h' => by rw [h] at h'; cases h'⟩

theorem Revoked.trans {cap : String} (h : Revoked cap t t') (h' : Revoked cap t' t'') :
    Revoked cap t t'' := by
  refine ⟨h.toWeakened.trans h'.toWeakened, fun k hk hk'' cs c hcs hc => ?_⟩
  cases hk' : t'.hasCapability k cap with
  | false => exact h'.lost (h.closed k hk hk' cs c hcs hc)
  | true => exact h'.closed k hk' hk'' cs c (h.children ▸ hcs) hc

/-- Revocation keeps the linking invariant. -/
theorem WF.revoked {cap : String} (h : WF t rank bound) (hr : Revoked cap t t') :
    WF t' rank bound := by
  refine ⟨?_, ?_, ?_, ?_, ?_, ?_, ?_⟩
  · intro k hk
    obtain ⟨r, hr0, hp⟩ := h.root k ((hr.mem_iff k).1 hk)
    obtain ⟨r', hr', hp', -⟩ := hr.image hr0
    exact ⟨r', hr', hp'.trans hp⟩
  · intro k n' hk hne
    obtain ⟨n, hn, hpar, hdep, hsub⟩ := hr.source hk
    obtain ⟨p, hp, hd, hs⟩ := h.parent k n hn hne
    obtain ⟨p', hp', -, hd', hkeep⟩ := hr.image hp
    refine ⟨p', by rw [hpar]; exact hp', by rw [hdep, hd, hd'], fun x hx => ?_⟩
    have hxp : x ∈ p.capabilities := hs (hsub hx)
    by_cases hxc : x = cap
    · -- a parent that lost the capability has passed the loss on to this child
      subst hxc
      by_contra hnot
      obtain ⟨cs, hcs, hmem⟩ := h.linked k n hn hne
      have hbefore : t.hasCapability n.parentId x = true := hasCapability_eq_true.2 ⟨p, hp, hxp⟩
      have hafter : t'.hasCapability n.parentId x = false := by
        rw [Bool.eq_false_iff, ne_eq, hasCapability_eq_true]
        rintro ⟨m, hm, hxm⟩
        rw [hp'] at hm
        cases hm
        exact hnot hxm
      have hlost := hr.closed n.parentId hbefore hafter cs k hcs hmem
      rw [hasCapability_eq_true.2 ⟨n', hk, hx⟩] at hlost
      cases hlost
    · exact hkeep x hxp hxc
  · intro k n' hk hne
    obtain ⟨n, hn, hpar, -⟩ := hr.source hk
    rw [hpar, hr.children]
    exact h.linked k n hn hne
  · intro k; rw [hr.children, hr.mem_iff]; exact h.keys k
  · intro k cs; rw [hr.children]; exact h.rootFree k cs
  · intro k cs c; rw [hr.children, hr.mem_iff]; exact h.ranked k cs c
  · intro k; rw [hr.mem_iff]; exact h.bounded k

theorem weakened_eraseCapability {k : String} {n : CapabilityNode}
    (hk : t.nodes.lookup k = some n) (cap : String) :
    Weakened cap t (t.eraseCapability k n cap) := by
  refine ⟨rfl, fun j => ?_⟩
  by_cases hj : j = k
  · subst hj
    exact Or.inr ⟨n, hk, AList.lookup_insert _⟩
  · exact Or.inl (AList.lookup_insert_ne hj)

/-- The step before the loop of `revokeRecursive`: the node itself loses the capability, nothing
else changes. -/
theorem revokeRecursive_head {k : String} {n : CapabilityNode} (cap : String) (count : ℕ)
    (hk : t.nodes.lookup k = some n) :
    ∃ t₁ count₁, (if cap ∈ n.capabilities then (t.eraseCapability k n cap, count + 1)
        else (t, count)) = (t₁, count₁) ∧ Weakened cap t t₁ ∧ t₁.hasCapability k cap = false ∧
      ∀ j, j ≠ k → t₁.hasCapability j cap = t.hasCapability j cap := by
  split_ifs with hcap
  · refine ⟨_, _, rfl, weakened_eraseCapability hk cap, ?_, ?_⟩
    · simp [hasCapability, eraseCapability]
    · intro j hj
      unfold hasCapability eraseCapability
      rw [AList.lookup_insert_ne hj]
  · refine ⟨t, count, rfl, Weakened.refl t, ?_, fun _ _ => rfl⟩
    unfold hasCapability
    rw [hk]
    simpa using hcap

/-- Child lists lead to younger nodes: all a walk needs in order to end. -/
def Ranked (t : CapabilityTree) (rank : String → ℕ) : Prop :=
  ∀ k cs c, t.children.lookup k = some cs → c ∈ cs → c ∈ t.nodes → rank k < rank c

theorem Ranked.weakened {cap : String} (h : Ranked t rank) (hw : Weakened cap t t') :
    Ranked t' rank := by
  intro k cs c
  rw [hw.children, hw.mem_iff]
  exact h k cs c

/-- The cascading revocation returns, and takes the capability from the node it starts at. -/
theorem revokeRecursive_spec (cap : String) :
    ∀ (fuel : ℕ) (t : CapabilityTree) (count : ℕ) (k : String), Ranked t rank →
      Enough t rank fuel k →
      ∃ t' count', revokeRecursive fuel k cap (t, count) = some (t', count') ∧
        Revoked cap t t' ∧ t'.hasCapability k cap = false := by
  intro fuel
  induction fuel with
  | zero => intro t count k _ he; exact absurd he.1 (Nat.lt_irrefl 0)
  | succ fuel ih =>
    intro t count k hranked he
    unfold revokeRecursive
    cases hk : t.nodes.lookup k with
    | none => exact ⟨t, count, rfl, Revoked.refl cap t, by simp [hasCapability, hk]⟩
    | some n =>
      obtain ⟨t₁, count₁, hst, hw, hlost, hsame⟩ := revokeRecursive_head cap count hk
      simp only [hst]
      cases hcs : t₁.children.lookup k with
      | none =>
        refine ⟨t₁, count₁, rfl, ⟨hw, ?_⟩, hlost⟩
        intro j hj hj' cs c hjc
        by_cases hjk : j = k
        · rw [← hw.children, hjk, hcs] at hjc; cases hjc
        · rw [hsame j hjk, hj] at hj'; cases hj'
      | some cs =>
        have hkm : k ∈ t.nodes := mem_nodes_of_lookup hk
        -- every round is a revocation, and takes the capability from the child it visits
        obtain ⟨⟨t₂, count₂⟩, hloop, hrev, hall⟩ := Runs.foldlM_visit
          (f := fun st c => revokeRecursive fuel c cap st)
          (R := fun a b => Revoked cap a.1 b.1) (P := fun c a => a.1.hasCapability c cap = false)
          (s := (t₁, count₁)) (l := cs) (fun a => Revoked.refl cap a.1)
          (fun _ _ _ => Revoked.trans) (fun c a b hab => hab.lost) (by
            rintro ⟨t₃, count₃⟩ h₃ c hc
            have hw₃ : Weakened cap t t₃ := hw.trans h₃.toWeakened
            have hchild : Enough t rank fuel c :=
              he.child hkm (hranked k cs c (hw.children ▸ hcs) hc)
            obtain ⟨t₄, count₄, h₄, hrev₄, hlost₄⟩ := ih t₃ count₃ c (hranked.weakened hw₃)
              (hchild.mono fun j hj => (hw₃.mem_iff j).1 hj)
            exact ⟨(t₄, count₄), h₄, hrev₄, hlost₄⟩)
        refine ⟨t₂, count₂, hloop, ⟨hw.trans hrev.toWeakened, ?_⟩, hrev.lost hlost⟩
        intro j hj hj' ds d hjd hd
        by_cases hjk : j = k
        · rw [← hw.children, hjk, hcs] at hjd
          cases hjd
          exact hall d hd
        · exact hrev.closed j (by rw [hsame j hjk]; exact hj) hj' ds d (hw.children ▸ hjd) hd

theorem wf_revoke (h : WF t rank bound) (k cap : String) :
    ∃ t' count, t.revoke k cap = some (t', count) ∧ WF t' rank bound := by
  obtain ⟨t', count, he, hr, -⟩ :=
    revokeRecursive_spec cap t.fuel t 0 k h.ranked (enough_fuel t rank k)
  exact ⟨t', count, he, h.revoked hr⟩

/-! ### Removal -/

/-- `t'` is `t` with nodes and entries of child lists taken away. -/
structure Pruned (t t' : CapabilityTree) : Prop where
  nodes : ∀ k n, t'.nodes.lookup k = some n → t.nodes.lookup k = some n
  children : ∀ k cs', t'.children.lookup k = some cs' →
    ∃ cs, t.children.lookup k = some cs ∧ cs' ⊆ cs

namespace Pruned

theorem refl (t : CapabilityTree) : Pruned t t :=
  ⟨fun _ _ h => h, fun _ cs h => ⟨cs, h, List.Subset.refl cs⟩⟩

theorem trans (h : Pruned t t') (h' : Pruned t' t'') : Pruned t t'' := by
  refine ⟨fun k n hk => h.nodes k n (h'.nodes k n hk), fun k cs'' hk => ?_⟩
  obtain ⟨cs', hcs', hsub'⟩ := h'.children k cs'' hk
  obtain ⟨cs, hcs, hsub⟩ := h.children k cs' hcs'
  exact ⟨cs, hcs, List.Subset.trans hsub' hsub⟩

theorem mem (h : Pruned t t') (k : String) (hk : k ∈ t'.nodes) : k ∈ t.nodes := by
  obtain ⟨n, hn⟩ := exists_lookup_of_mem hk
  exact mem_nodes_of_lookup (h.nodes k n hn)

end Pruned

/-- The part of `removeRecursive` after the loop. -/
def drop (t : CapabilityTree) (nodeId : String) : CapabilityTree :=
  let t₁ := unlink { t with children := t.children.erase nodeId } nodeId
  { t₁ with nodes := t₁.nodes.erase nodeId }

theorem unlink_nodes (t : CapabilityTree) (id : String) : (t.unlink id).nodes = t.nodes := by
  unfold unlink
  split
  · rfl
  · split_ifs
    · rfl
    · split <;> rfl

/-- `unlink` filters at most one child list. -/
theorem unlink_children (t : CapabilityTree) (id k : String) :
    (t.unlink id).children.lookup k = t.children.lookup k ∨ ∃ cs, t.children.lookup k = some cs ∧
      (t.unlink id).children.lookup k = some (cs.filter (· ≠ id)) := by
  unfold unlink
  split
  · exact Or.inl rfl
  · rename_i n hn
    split_ifs
    · exact Or.inl rfl
    · split
      · exact Or.inl rfl
      · rename_i cs hcs
        by_cases hk : k = n.parentId
        · subst hk
          exact Or.inr ⟨cs, hcs, AList.lookup_insert _⟩
        · exact Or.inl (AList.lookup_insert_ne hk)

theorem drop_nodes_self (t : CapabilityTree) (id : String) :
    (t.drop id).nodes.lookup id = none := by
  unfold drop
  exact AList.lookup_erase _ _

theorem drop_nodes_ne {id k : String} (hk : k ≠ id) :
    (t.drop id).nodes.lookup k = t.nodes.lookup k := by
  unfold drop
  rw [AList.lookup_erase_ne hk, unlink_nodes]

theorem drop_children_self (t : CapabilityTree) (id : String) :
    (t.drop id).children.lookup id = none := by
  have hnone : (t.children.erase id).lookup id = none := AList.lookup_erase _ _
  rcases unlink_children { t with children := t.children.erase id } id id with e | ⟨cs, hcs, -⟩
  · exact e.trans hnone
  · rw [hnone] at hcs; cases hcs

theorem drop_children_ne {id k : String} (hk : k ≠ id) :
    (t.drop id).children.lookup k = t.children.lookup k ∨ ∃ cs, t.children.lookup k = some cs ∧
      (t.drop id).children.lookup k = some (cs.filter (· ≠ id)) := by
  have hsame : (t.children.erase id).lookup k = t.children.lookup k := AList.lookup_erase_ne hk
  rcases unlink_children { t with children := t.children.erase id } id k with e | ⟨cs, hcs, e⟩
  · exact Or.inl (e.trans hsame)
  · exact Or.inr ⟨cs, hsame ▸ hcs, e⟩

theorem ne_of_mem_drop {id k : String} (hk : k ∈ (t.drop id).nodes) : k ≠ id := by
  rintro rfl
  obtain ⟨n, hn⟩ := exists_lookup_of_mem hk
  rw [drop_nodes_self] at hn
  cases hn

theorem pruned_drop (t : CapabilityTree) (id : String) : Pruned t (t.drop id) := by
  constructor
  · intro k n hk
    rwa [drop_nodes_ne (ne_of_mem_drop (mem_nodes_of_lookup hk))] at hk
  · intro k cs' hk
    by_cases hkid : k = id
    · rw [hkid, drop_children_self] at hk; cases hk
    · rcases drop_children_ne hkid with e | ⟨cs, hcs, e⟩
      · exact ⟨cs', e ▸ hk, List.Subset.refl _⟩
      · rw [hk] at e
        cases e
        exact ⟨cs, hcs, List.filter_subset_self _⟩

/-- Where the root has no children left, it is the only node. -/
theorem WF.only_root (h : WF t rank bound)
    (hfree : ∀ k n, t.nodes.lookup k = some n → k ≠ rootId → n.parentId ≠ rootId) :
    ∀ k, k ∈ t.nodes → k = rootId := by
  -- on the age of the node: its parent is older, hence the root
  have key : ∀ m k, rank k = m → k ∈ t.nodes → k = rootId := by
    intro m
    induction m using Nat.strong_induction_on with
    | _ m ih =>
      intro k hm hk
      by_contra hne
      obtain ⟨n, hn⟩ := exists_lookup_of_mem hk
      obtain ⟨cs, hcs, hmem⟩ := h.linked k n hn hne
      have hlt : rank n.parentId < m := hm ▸ h.ranked n.parentId cs k hcs hmem hk
      exact hfree k n hn hne (ih _ hlt n.parentId rfl (h.parent_mem hn hne))
  exact fun k => key (rank k) k rfl

/-- A node without children can be dropped. -/
theorem WF.drop (h : WF t rank bound) {id : String}
    (hfree : ∀ k n, t.nodes.lookup k = some n → k ≠ rootId → n.parentId ≠ id) :
    WF (t.drop id) rank bound := by
  have hpruned := pruned_drop t id
  refine ⟨?_, ?_, ?_, ?_, ?_, ?_, ?_⟩
  · intro k hk
    obtain ⟨r, hr, hr0⟩ := h.root k (hpruned.mem k hk)
    have hne : rootId ≠ id := by
      rintro rfl
      exact ne_of_mem_drop hk (h.only_root hfree k (hpruned.mem k hk))
    exact ⟨r, by rw [drop_nodes_ne hne]; exact hr, hr0⟩
  · intro k n hk hne
    obtain ⟨p, hp, hd, hs⟩ := h.parent k n (hpruned.nodes k n hk) hne
    exact ⟨p, by rw [drop_nodes_ne (hfree k n (hpruned.nodes k n hk) hne)]; exact hp, hd, hs⟩
  · intro k n hk hne
    obtain ⟨cs, hcs, hmem⟩ := h.linked k n (hpruned.nodes k n hk) hne
    have hkid : k ≠ id := ne_of_mem_drop (mem_nodes_of_lookup hk)
    rcases drop_children_ne (hfree k n (hpruned.nodes k n hk) hne) with e | ⟨ds, hds, e⟩
    · exact ⟨cs, e.trans hcs, hmem⟩
    · rw [hcs] at hds
      cases hds
      exact ⟨_, e, List.mem_filter.2 ⟨hmem, by simpa using hkid⟩⟩
  · intro k
    have hkeys : (t.children.lookup k).isSome ↔ (t.nodes.lookup k).isSome := by
      rw [AList.lookup_isSome, AList.lookup_isSome]; exact h.keys k
    rw [← AList.lookup_isSome, ← AList.lookup_isSome]
    by_cases hk : k = id
    · rw [hk, drop_nodes_self, drop_children_self]; rfl
    · rw [drop_nodes_ne hk, ← hkeys]
      rcases drop_children_ne (t := t) hk with e | ⟨cs, hcs, e⟩
      · rw [e]
      · rw [e, hcs]; rfl
  · intro k cs' hk hroot
    obtain ⟨cs, hcs, hsub⟩ := hpruned.children k cs' hk
    exact h.rootFree k cs hcs (hsub hroot)
  · intro k cs' c hk hc hcm
    obtain ⟨cs, hcs, hsub⟩ := hpruned.children k cs' hk
    exact h.ranked k cs c hcs (hsub hc) (hpruned.mem c hcm)
  · intro k hk
    exact h.bounded k (hpruned.mem k hk)

/-- The removal returns a well-formed tree without the node it starts at. -/
theorem removeRecursive_spec :
    ∀ (fuel : ℕ) (t : CapabilityTree) (id : String), WF t rank bound → Enough t rank fuel id →
      ∃ t', removeRecursive fuel id t = some t' ∧ Pruned t t' ∧ WF t' rank bound ∧
        id ∉ t'.nodes := by
  intro fuel
  induction fuel with
  | zero => intro t id _ he; exact absurd he.1 (Nat.lt_irrefl 0)
  | succ fuel ih =>
    intro t id h he
    unfold removeRecursive
    cases hcs : t.children.lookup id with
    | none =>
      have hid : id ∉ t.nodes := by
        rw [← h.keys, ← AList.lookup_isSome, hcs]; simp
      have hsame : t.nodes.erase id = t.nodes := AList.ext (List.kerase_of_notMem_keys hid)
      have hunlink : t.unlink id = t := by
        unfold unlink
        rw [AList.lookup_eq_none.2 hid]
      refine ⟨t, ?_, Pruned.refl t, h, hid⟩
      simp only [Option.bind_eq_bind, Option.bind_some, hunlink, hsame]
    | some cs =>
      have hidm : id ∈ t.nodes := by
        rw [← h.keys, ← AList.lookup_isSome, hcs]; rfl
      -- every round prunes a well-formed tree and removes the child it visits
      obtain ⟨t₂, hloop, ⟨hpr, hwf⟩, hgone⟩ := Runs.foldlM_visit
        (f := fun t c => removeRecursive fuel c t)
        (R := fun a b => Pruned a b ∧ (WF a rank bound → WF b rank bound))
        (P := fun c a => c ∉ a.nodes) (s := t) (l := cs)
        (fun a => ⟨Pruned.refl a, fun h => h⟩)
        (fun _ _ _ hab hbc => ⟨hab.1.trans hbc.1, hbc.2 ∘ hab.2⟩)
        (fun c a b hab hc hcb => hc (hab.1.mem c hcb)) (by
          rintro t₃ ⟨hpr₃, hwf₃⟩ c hc
          have hchild : Enough t rank fuel c := he.child hidm (h.ranked id cs c hcs hc)
          obtain ⟨t₄, h₄, hpr₄, hwf₄, hgone₄⟩ := ih t₃ c (hwf₃ h) (hchild.mono hpr₃.mem)
          exact ⟨t₄, h₄, ⟨hpr₄, fun _ => hwf₄⟩, hgone₄⟩)
      have h₂ : WF t₂ rank bound := hwf h
      have hfree : ∀ k n, t₂.nodes.lookup k = some n → k ≠ rootId → n.parentId ≠ id := by
        rintro k n hk hne rfl
        obtain ⟨cs₂, hcs₂, hmem⟩ := h₂.linked k n hk hne
        obtain ⟨cs', hcs', hsub⟩ := hpr.children n.parentId cs₂ hcs₂
        rw [hcs] at hcs'
        cases hcs'
        exact hgone k (hsub hmem) (mem_nodes_of_lookup hk)
      refine ⟨t₂.drop id, ?_, hpr.trans (pruned_drop t₂ id), h₂.drop hfree,
        fun hm => ne_of_mem_drop hm rfl⟩
      simp only [Option.bind_eq_bind, hloop, Option.bind_some]
      rfl

theorem wf_removeSubtree (h : WF t rank bound) (id : String) :
    ∃ t', t.removeSubtree id = some t' ∧ WF t' rank bound := by
  obtain ⟨t', he, -, hwf, -⟩ := removeRecursive_spec t.fuel t id h (enough_fuel t rank id)
  exact ⟨t', he, hwf⟩

/-! ### All sequences of operations -/

/-- `p` is the stored parent link of the node `k`. -/
def IsParent (t : CapabilityTree) (p k : String) : Prop :=
  k ≠ rootId ∧ ∃ n, t.nodes.lookup k = some n ∧ n.parentId = p

/-- `a` is an ancestor of `k`: one or more parent links lead from `k` to `a`. -/
def IsAncestor (t : CapabilityTree) (a k : String) : Prop := Relation.TransGen t.IsParent a k

theorem wf_step (h : ∃ rank bound, WF t rank bound) (op : Op) :
    ∃ t', t.step op = some t' ∧ ∃ rank bound, WF t' rank bound := by
  obtain ⟨rank, bound, h⟩ := h
  cases op with
  | initRoot caps => exact ⟨_, rfl, _, _, WF.initRoot caps⟩
  | delegate p c caps => exact ⟨_, rfl, wf_delegate h p c caps⟩
  | revoke k cap =>
    obtain ⟨t', count, he, hwf⟩ := wf_revoke h k cap
    exact ⟨t', by simp only [step, he, Option.map_some], rank, bound, hwf⟩
  | removeSubtree k =>
    obtain ⟨t', he, hwf⟩ := wf_removeSubtree h k
    exact ⟨t', he, rank, bound, hwf⟩

/-- The subset law along one parent link, carried up to any ancestor. -/
theorem WF.ancestor (h : WF t rank bound) {a k : String} (ha : t.IsAncestor a k) :
    ∃ n na, t.nodes.lookup k = some n ∧ t.nodes.lookup a = some na ∧
      n.capabilities ⊆ na.capabilities := by
  induction ha with
  | single hp =>
    obtain ⟨hne, n, hn, rfl⟩ := hp
    obtain ⟨p, hp, -, hs⟩ := h.parent _ n hn hne
    exact ⟨n, p, hn, hp, hs⟩
  | tail _ hp ih =>
    obtain ⟨hne, n, hn, rfl⟩ := hp
    obtain ⟨p, hp, -, hs⟩ := h.parent _ n hn hne
    obtain ⟨p', na, hp', hna, hs'⟩ := ih
    rw [hp] at hp'
    cases hp'
    exact ⟨n, na, hn, hna, hs.trans hs'⟩

theorem WF.validateInvariant (h : WF t rank bound) : t.validateInvariant = true := by
  unfold CapabilityTree.validateInvariant
  rw [List.all_eq_true]
  rintro ⟨k, n⟩ hmem
  have hk : t.nodes.lookup k = some n := AList.mem_lookup_iff.2 hmem
  by_cases hroot : k = rootId
  · obtain ⟨r, hr, hr0⟩ := h.root k (mem_nodes_of_lookup hk)
    rw [hroot, hr] at hk
    cases hk
    simp [hr0]
  · obtain ⟨p, hp, -, hs⟩ := h.parent k n hk hroot
    simp [hp, hs]

/-- **Capability attenuation.**  Every sequence of operations from the empty tree returns, and in
the tree it leads to every node but the root has its parent stored, is one deeper than it, and
holds no capability that one of its ancestors lacks; `validateInvariant` agrees, and a refused
delegation leaves the tree as it was. -/
theorem attenuation (ops : List Op) :
    ∃ t, ops.foldlM step empty = some t ∧
      (∀ k n, t.nodes.lookup k = some n → k ≠ rootId →
        (∃ p, t.nodes.lookup n.parentId = some p ∧ n.depth = p.depth + 1) ∧
        ∀ a, t.IsAncestor a k → ∃ na, t.nodes.lookup a = some na ∧
          n.capabilities ⊆ na.capabilities) ∧
      t.validateInvariant = true ∧
      ∀ p c caps, (t.delegate p c caps).2 = false → (t.delegate p c caps).1 = t := by
  obtain ⟨t, hrun, rank, bound, h⟩ := Runs.foldlM_total (f := step)
    (I := fun t => ∃ rank bound, WF t rank bound) (fun _ op h => wf_step h op)
    ⟨_, _, WF.empty⟩ ops
  refine ⟨t, hrun, fun k n hk hne => ⟨?_, fun a ha => ?_⟩, h.validateInvariant,
    fun p c caps => delegate_refused⟩
  · obtain ⟨p, hp, hd, -⟩ := h.parent k n hk hne
    exact ⟨p, hp, hd⟩
  · obtain ⟨m, na, hm, hna, hs⟩ := h.ancestor ha
    rw [hk] at hm
    cases hm
    exact ⟨na, hna, hs⟩

end AstraVeil.Daemon.CapabilityTree
