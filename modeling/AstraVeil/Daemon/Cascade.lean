import AstraVeil.Daemon.Attenuation

/-!
# Exact cascades

What `revoke` and `removeSubtree` of the delegation tree do, by the parent links: they reach a node
and its descendants and nothing else.  The walks follow the child lists; the two agree as long as
every entry of a child list is a stored child (`Tidy`).

* `Reaches`, `revokeRecursive_walked`, `removeRecursive_swept`: what a walk along the child lists
  leaves alone;
* `Tidy.removed`: removal leaves no entry behind, where no node but the root has an empty parent id;
* `cascades_of_tidy`: both operations are exact on such trees;
* `not_cascades_of_unnamed`: they are not once the node with the empty id has delegated;
* `cascades_run_iff`: the exact condition, over all sequences of operations.
-/

namespace AstraVeil.Daemon.CapabilityTree

open Relation

variable {t t' t'' : CapabilityTree} {rank : String → ℕ} {bound : ℕ} {n k j cap : String}

/-- `k` is `n` or one of its descendants: parent links lead from `k` up to `n`. -/
def InSubtree (t : CapabilityTree) (n k : String) : Prop := ReflTransGen t.IsParent n k

/-- The stored nodes that hold a capability. -/
def holders (t : CapabilityTree) (cap : String) : Finset String :=
  t.nodes.keys.toFinset.filter fun k => t.hasCapability k cap = true

open Classical in
/-- `revoke` takes the capability from the node and its descendants, counts those that held it, and
changes nothing else. -/
def RevokesExactly (t : CapabilityTree) (n cap : String) : Prop :=
  ∃ t' count, t.revoke n cap = some (t', count) ∧
    (∀ k, t.InSubtree n k → t'.nodes.lookup k = (t.nodes.lookup k).map fun node =>
      { node with capabilities := node.capabilities.erase cap }) ∧
    (∀ k, ¬ t.InSubtree n k → t'.nodes.lookup k = t.nodes.lookup k) ∧
    t'.children = t.children ∧
    count = ((t.holders cap).filter (t.InSubtree n)).card

/-- `removeSubtree` deletes the node and its descendants, changes no other node, and leaves no
deleted id in a child list. -/
def RemovesExactly (t : CapabilityTree) (n : String) : Prop :=
  ∃ t', t.removeSubtree n = some t' ∧
    (∀ k, t.InSubtree n k → k ∉ t'.nodes) ∧
    (∀ k, ¬ t.InSubtree n k → t'.nodes.lookup k = t.nodes.lookup k) ∧
    ∀ k cs c, t'.children.lookup k = some cs → c ∈ cs → ¬ (c ∈ t.nodes ∧ t.InSubtree n c)

/-- Both operations are exact, wherever they start. -/
def Cascades (t : CapabilityTree) : Prop :=
  ∀ n, (∀ cap, RevokesExactly t n cap) ∧ RemovesExactly t n

/-! ### Walks along the child lists -/

/-- `c` is an entry of the child list of `p`. -/
def Listed (t : CapabilityTree) (p c : String) : Prop :=
  ∃ cs, t.children.lookup p = some cs ∧ c ∈ cs

/-- The walk from `n` along the child lists comes to `k`. -/
def Reaches (t : CapabilityTree) (n k : String) : Prop := ReflTransGen t.Listed n k

theorem Reaches.mono (h : ∀ p c, t'.Listed p c → t.Listed p c) (hk : t'.Reaches n k) :
    t.Reaches n k := ReflTransGen.mono h n k hk

theorem Pruned.listed (h : Pruned t t') (p c : String) : t'.Listed p c → t.Listed p c := by
  rintro ⟨cs', hcs', hc⟩
  obtain ⟨cs, hcs, hsub⟩ := h.children p cs' hcs'
  exact ⟨cs, hcs, hsub hc⟩

theorem mem_holders : k ∈ t.holders cap ↔ t.hasCapability k cap = true := by
  rw [holders, Finset.mem_filter, List.mem_toFinset]
  refine and_iff_right_of_imp fun h => ?_
  obtain ⟨node, hnode, -⟩ := hasCapability_eq_true.1 h
  exact mem_nodes_of_lookup hnode

/-- What `revokeRecursive` does: it weakens only nodes that the walk comes to, and counts the
holders that are gone. -/
structure Walked (cap n : String) (t : CapabilityTree) (count : ℕ) (t' : CapabilityTree)
    (count' : ℕ) : Prop where
  weakened : Weakened cap t t'
  frame : ∀ k, ¬ t.Reaches n k → t'.nodes.lookup k = t.nodes.lookup k
  counted : count' + (t'.holders cap).card = count + (t.holders cap).card

theorem holders_eraseCapability {node : CapabilityNode} (hn : t.nodes.lookup n = some node) :
    (t.eraseCapability n node cap).holders cap = (t.holders cap).erase n := by
  ext k
  rw [Finset.mem_erase, mem_holders, mem_holders]
  by_cases hk : k = n
  · subst hk
    simp [hasCapability, eraseCapability]
  · unfold hasCapability eraseCapability
    rw [AList.lookup_insert_ne hk]
    simp [hk]

/-- The step before the loop, as a walk of its own. -/
theorem walked_head {node : CapabilityNode} (hn : t.nodes.lookup n = some node) (count : ℕ)
    {st : CapabilityTree × ℕ} (hst : (if cap ∈ node.capabilities then
      (t.eraseCapability n node cap, count + 1) else (t, count)) = st) :
    Walked cap n t count st.1 st.2 := by
  split_ifs at hst with hcap
  · subst hst
    refine ⟨weakened_eraseCapability hn cap, fun k hk => ?_, ?_⟩
    · exact AList.lookup_insert_ne fun h => hk (h ▸ ReflTransGen.refl)
    · have hmem : n ∈ t.holders cap := mem_holders.2 (hasCapability_eq_true.2 ⟨node, hn, hcap⟩)
      have hcard := Finset.card_erase_add_one hmem
      rw [holders_eraseCapability hn]
      show count + 1 + ((t.holders cap).erase n).card = count + (t.holders cap).card
      omega
  · subst hst
    exact ⟨Weakened.refl t, fun _ _ => rfl, rfl⟩

/-- A walk from an entry of the child list is part of the walk from its owner. -/
theorem Walked.child {c : String} {s s' : CapabilityTree} {count count₁ count₂ : ℕ}
    (h : Walked cap n t count s count₁) (hc : t.Listed n c) (h' : Walked cap c s count₁ s' count₂) :
    Walked cap n t count s' count₂ := by
  refine ⟨h.weakened.trans h'.weakened, fun k hk => ?_, ?_⟩
  · have hlisted : ∀ p d, s.Listed p d → t.Listed p d := by
      intro p d
      rw [Listed, Listed, h.weakened.children]
      exact fun hd => hd
    rw [h'.frame k fun hck => hk (ReflTransGen.head hc (hck.mono hlisted)), h.frame k hk]
  · have h₁ := h.counted
    have h₂ := h'.counted
    omega

theorem revokeRecursive_walked : ∀ (fuel : ℕ) (n : String) (t : CapabilityTree) (count : ℕ)
    (t' : CapabilityTree) (count' : ℕ),
    revokeRecursive fuel n cap (t, count) = some (t', count') → Walked cap n t count t' count' := by
  intro fuel
  induction fuel with
  | zero => intro n t count t' count' h; cases h
  | succ fuel ih =>
    intro n t count t' count' h
    unfold revokeRecursive at h
    cases hn : t.nodes.lookup n with
    | none =>
      rw [hn] at h
      obtain ⟨rfl, rfl⟩ := Prod.mk.inj (Option.some.inj h)
      exact ⟨Weakened.refl t, fun _ _ => rfl, rfl⟩
    | some node =>
      rw [hn] at h
      obtain ⟨st, hst⟩ : ∃ st, (if cap ∈ node.capabilities then
        (t.eraseCapability n node cap, count + 1) else (t, count)) = st := ⟨_, rfl⟩
      have hhead := walked_head hn count hst
      simp only [hst] at h
      cases hcs : st.1.children.lookup n with
      | none =>
        rw [hcs] at h
        obtain rfl := Option.some.inj h
        exact hhead
      | some cs =>
        rw [hcs] at h
        refine Runs.foldlM_invariant (I := fun st => Walked cap n t count st.1 st.2) h hhead ?_
        rintro ⟨s, count₁⟩ c ⟨s', count₂⟩ hc hs hround
        exact hs.child ⟨cs, hhead.weakened.children ▸ hcs, hc⟩ (ih c s count₁ s' count₂ hround)

/-- A removal is a loop over the child list, an empty one where there is none, and `drop`. -/
theorem exists_loop_of_removeRecursive {fuel : ℕ} (h : removeRecursive (fuel + 1) n t = some t') :
    ∃ s, ((t.children.lookup n).getD []).foldlM (fun t c => removeRecursive fuel c t) t = some s ∧
      t' = s.drop n := by
  unfold removeRecursive at h
  cases hcs : t.children.lookup n with
  | none =>
    rw [hcs] at h
    have hsame : t.children.erase n = t.children :=
      AList.ext (List.kerase_of_notMem_keys (AList.lookup_eq_none.1 hcs))
    refine ⟨t, rfl, ?_⟩
    rw [drop, hsame]
    exact (Option.some.inj h).symm
  | some cs =>
    rw [hcs] at h
    obtain ⟨s, hloop, hdrop⟩ := Option.bind_eq_some_iff.1 h
    exact ⟨s, hloop, (Option.some.inj hdrop).symm⟩

/-- What `removeRecursive` does: it takes away only nodes that the walk comes to. -/
structure Swept (n : String) (t t' : CapabilityTree) : Prop where
  pruned : Pruned t t'
  frame : ∀ k, ¬ t.Reaches n k → t'.nodes.lookup k = t.nodes.lookup k

theorem Swept.child {c : String} {s s' : CapabilityTree} (h : Swept n t s) (hc : t.Listed n c)
    (h' : Swept c s s') : Swept n t s' := by
  refine ⟨h.pruned.trans h'.pruned, fun k hk => ?_⟩
  rw [h'.frame k fun hck => hk (ReflTransGen.head hc (hck.mono h.pruned.listed)), h.frame k hk]

theorem removeRecursive_swept : ∀ (fuel : ℕ) (n : String) (t t' : CapabilityTree),
    removeRecursive fuel n t = some t' → Swept n t t' := by
  intro fuel
  induction fuel with
  | zero => intro n t t' h; cases h
  | succ fuel ih =>
    intro n t t' h
    obtain ⟨s, hloop, rfl⟩ := exists_loop_of_removeRecursive h
    have hs : Swept n t s := by
      refine Runs.foldlM_invariant (I := Swept n t) hloop ⟨Pruned.refl t, fun _ _ => rfl⟩ ?_
      intro s c s' hc hs hround
      cases hcs : t.children.lookup n with
      | none => simp [hcs] at hc
      | some cs => exact hs.child ⟨cs, hcs, by simpa [hcs] using hc⟩ (ih c s s' hround)
    refine ⟨hs.pruned.trans (pruned_drop s n), fun k hk => ?_⟩
    have hkn : k ≠ n := fun hkn => hk (hkn ▸ ReflTransGen.refl)
    rw [drop_nodes_ne hkn, hs.frame k hk]

/-! ### Trees without stale entries -/

/-- Every entry of a child list is a stored child of the owner, and no node but the root has an
empty parent id. -/
structure Tidy (t : CapabilityTree) : Prop where
  child : ∀ p c, t.Listed p c → t.IsParent p c
  named : ∀ k node, t.nodes.lookup k = some node → k ≠ rootId → node.parentId ≠ ""

theorem Tidy.inSubtree (h : Tidy t) (hk : t.Reaches n k) : t.InSubtree n k :=
  ReflTransGen.mono h.child n k hk

theorem tidy_empty : Tidy empty := by
  constructor
  · rintro p c ⟨cs, hcs, -⟩
    simp [empty] at hcs
  · intro k node hk
    simp [empty] at hk

theorem tidy_initRoot (caps : Finset String) : Tidy (initRoot caps) := by
  constructor
  · rintro p c ⟨cs, hcs, hc⟩
    rcases lookup_insert_cases hcs with ⟨-, rfl⟩ | ⟨-, hcs⟩
    · cases hc
    · simp at hcs
  · intro k node hk hne
    rcases lookup_insert_cases hk with ⟨rfl, -⟩ | ⟨-, hk⟩
    · exact absurd rfl hne
    · simp at hk

theorem Tidy.weakened (h : Tidy t) (hw : Weakened cap t t') : Tidy t' := by
  constructor
  · intro p c hc
    obtain ⟨hne, node, hnode, rfl⟩ := h.child p c (by
      rw [Listed, hw.children] at hc
      exact hc)
    obtain ⟨node', hnode', hparent, -⟩ := hw.image hnode
    exact ⟨hne, node', hnode', hparent⟩
  · intro k node' hk hne
    obtain ⟨node, hnode, hparent, -⟩ := hw.source hk
    rw [hparent]
    exact h.named k node hnode hne

/-- The root is stored already when something is delegated. -/
theorem WF.ne_root (h : WF t rank bound) {p c : String} {caps : Finset String}
    (hacc : (t.delegate p c caps).2 = true) : c ≠ rootId := by
  obtain ⟨parent, hparent, hc, -⟩ := delegate_accepted hacc
  obtain ⟨r, hr, -⟩ := h.root p (mem_nodes_of_lookup hparent)
  exact fun hcr => hc (hcr ▸ mem_nodes_of_lookup hr)

theorem Tidy.delegated (h : Tidy t) (hwf : WF t rank bound) {p c : String} {caps : Finset String}
    (hacc : (t.delegate p c caps).2 = true) (hp : p ≠ "") : Tidy (t.delegate p c caps).1 := by
  have hcr := hwf.ne_root hacc
  obtain ⟨parent, -, hc, -, he⟩ := delegate_accepted hacc
  rw [he]
  -- a child that was there already is still there
  have hold : ∀ q d, t.Listed q d → d ≠ rootId ∧ ∃ node,
      (t.nodes.insert c ⟨c, p, caps, parent.depth + 1⟩).lookup d = some node ∧
        node.parentId = q := by
    intro q d hd
    obtain ⟨hne, node, hnode, hparent⟩ := h.child q d hd
    have hdc : d ≠ c := fun hdc => hc (hdc ▸ mem_nodes_of_lookup hnode)
    exact ⟨hne, node, by rw [AList.lookup_insert_ne hdc]; exact hnode, hparent⟩
  constructor
  · rintro q d ⟨cs, hcs, hd⟩
    rcases lookup_insert_cases hcs with ⟨-, rfl⟩ | ⟨-, hcs⟩
    · cases hd
    rcases lookup_insert_cases hcs with ⟨rfl, rfl⟩ | ⟨-, hcs⟩
    · rcases List.mem_append.1 hd with hd | hd
      · cases hsibs : t.children.lookup q with
        | none => simp [hsibs] at hd
        | some sibs => exact hold q d ⟨sibs, hsibs, by simpa [hsibs] using hd⟩
      · rw [List.mem_singleton] at hd
        subst hd
        exact ⟨hcr, _, AList.lookup_insert _, rfl⟩
    · exact hold q d ⟨cs, hcs, hd⟩
  · intro k node hk hne
    rcases lookup_insert_cases hk with ⟨-, rfl⟩ | ⟨-, hk⟩
    · exact hp
    · exact h.named k node hk hne

/-- A dropped node is struck from its parent's list, where its parent id is not empty. -/
theorem not_listed_drop {node : CapabilityNode} (hn : t.nodes.lookup n = some node)
    (hp : node.parentId ≠ "") : ¬ (t.drop n).Listed node.parentId n := by
  rintro ⟨cs, hcs, hmem⟩
  unfold drop unlink at hcs
  simp only [hn, if_neg hp] at hcs
  cases hsibs : (t.children.erase n).lookup node.parentId with
  | none =>
    simp only [hsibs] at hcs
    cases hcs
  | some sibs =>
    simp only [hsibs, AList.lookup_insert] at hcs
    obtain rfl := Option.some.inj hcs
    simp at hmem

theorem Tidy.drop (h : Tidy t) (n : String) : Tidy (t.drop n) := by
  have hpruned := pruned_drop t n
  constructor
  · intro p c hc
    obtain ⟨hne, node, hnode, rfl⟩ := h.child p c (hpruned.listed p c hc)
    by_cases hcn : c = n
    · subst hcn
      exact absurd hc (not_listed_drop hnode (h.named c node hnode hne))
    · exact ⟨hne, node, by rw [drop_nodes_ne hcn]; exact hnode, rfl⟩
  · intro k node hk hne
    exact h.named k node (hpruned.nodes k node hk) hne

/-- Removal leaves no stale entry behind. -/
theorem Tidy.removed : ∀ (fuel : ℕ) (n : String) (t t' : CapabilityTree),
    removeRecursive fuel n t = some t' → Tidy t → Tidy t' := by
  intro fuel
  induction fuel with
  | zero => intro n t t' h; cases h
  | succ fuel ih =>
    intro n t t' h htidy
    obtain ⟨s, hloop, rfl⟩ := exists_loop_of_removeRecursive h
    refine Tidy.drop (Runs.foldlM_invariant (I := Tidy) hloop htidy ?_) n
    exact fun s c s' _ hs hround => ih c s s' hround hs

/-! ### Exactness -/

theorem Weakened.lookup_of_lost (h : Weakened cap t t') (hk : t'.hasCapability k cap = false) :
    t'.nodes.lookup k = (t.nodes.lookup k).map fun node =>
      { node with capabilities := node.capabilities.erase cap } := by
  rcases h.lookup k with e | ⟨node, hnode, e⟩
  · rw [e]
    cases hnode : t.nodes.lookup k with
    | none => rfl
    | some node =>
      have hcap : cap ∉ node.capabilities := by
        simpa [hasCapability, e, hnode] using hk
      rw [Option.map_some, Finset.erase_eq_of_notMem hcap]
  · rw [e, hnode, Option.map_some]

/-- The subset law carries a loss down to the descendants. -/
theorem WF.lost_inSubtree (h' : WF t' rank bound) (hw : Weakened cap t t')
    (hn : t'.hasCapability n cap = false) (hk : t.InSubtree n k) :
    t'.hasCapability k cap = false := by
  induction hk with
  | refl => exact hn
  | tail _ hparent ih =>
    obtain ⟨hne, node, hnode, rfl⟩ := hparent
    obtain ⟨node', hnode', hp', -⟩ := hw.image hnode
    obtain ⟨p, hp, -, hsub⟩ := h'.parent _ node' hnode' hne
    rw [Bool.eq_false_iff, ne_eq, hasCapability_eq_true] at ih ⊢
    rintro ⟨m, hm, hcap⟩
    rw [hnode'] at hm
    cases hm
    exact ih ⟨p, hp' ▸ hp, hsub hcap⟩

theorem revokesExactly_of_tidy (h : WF t rank bound) (htidy : Tidy t) (n cap : String) :
    RevokesExactly t n cap := by
  classical
  obtain ⟨t', count, he, hrev, hn⟩ :=
    revokeRecursive_spec cap t.fuel t 0 n h.ranked (enough_fuel t rank n)
  have hwalk := revokeRecursive_walked _ _ _ _ _ _ he
  have hlost : ∀ k, t.InSubtree n k → t'.hasCapability k cap = false := fun k hk =>
    (h.revoked hrev).lost_inSubtree hrev.toWeakened hn hk
  have hframe : ∀ k, ¬ t.InSubtree n k → t'.nodes.lookup k = t.nodes.lookup k := fun k hk =>
    hwalk.frame k fun hreach => hk (htidy.inSubtree hreach)
  refine ⟨t', count, he, fun k hk => hrev.lookup_of_lost (hlost k hk), hframe, hrev.children, ?_⟩
  -- the holders left are those outside the subtree
  have hleft : t'.holders cap = (t.holders cap).filter fun k => ¬ t.InSubtree n k := by
    ext k
    rw [Finset.mem_filter, mem_holders, mem_holders]
    by_cases hk : t.InSubtree n k
    · simp [hk, hlost k hk]
    · simp [hk, hasCapability, hframe k hk]
  have hsplit := Finset.card_filter_add_card_filter_not (s := t.holders cap) (t.InSubtree n)
  have hcount := hwalk.counted
  rw [hleft] at hcount
  omega

/-- Without its root no part of a removed subtree is left. -/
theorem WF.gone_inSubtree (h' : WF t' rank bound) (hpruned : Pruned t t') (hn : n ∉ t'.nodes)
    (hk : t.InSubtree n k) : k ∉ t'.nodes := by
  induction hk with
  | refl => exact hn
  | tail _ hparent ih =>
    obtain ⟨hne, node, hnode, rfl⟩ := hparent
    intro hmem
    obtain ⟨node', hnode'⟩ := exists_lookup_of_mem hmem
    have hsame := hpruned.nodes _ node' hnode'
    rw [hnode] at hsame
    cases hsame
    exact ih (h'.parent_mem hnode' hne)

theorem removesExactly_of_tidy (h : WF t rank bound) (htidy : Tidy t) (n : String) :
    RemovesExactly t n := by
  obtain ⟨t', he, hpruned, hwf, hn⟩ := removeRecursive_spec t.fuel t n h (enough_fuel t rank n)
  have hgone : ∀ k, t.InSubtree n k → k ∉ t'.nodes := fun k hk => hwf.gone_inSubtree hpruned hn hk
  refine ⟨t', he, hgone, fun k hk => ?_, ?_⟩
  · exact (removeRecursive_swept _ _ _ _ he).frame k fun hreach => hk (htidy.inSubtree hreach)
  · rintro k cs c hcs hc ⟨-, hsub⟩
    obtain ⟨-, node, hnode, -⟩ := (Tidy.removed _ _ _ _ he htidy).child k c ⟨cs, hcs, hc⟩
    exact hgone c hsub (mem_nodes_of_lookup hnode)

theorem cascades_of_tidy (h : WF t rank bound) (htidy : Tidy t) : Cascades t := fun n =>
  ⟨fun cap => revokesExactly_of_tidy h htidy n cap, removesExactly_of_tidy h htidy n⟩

/-- A child of the node with the empty id stays in the child list when it is removed. -/
theorem not_cascades_of_unnamed {c : String} {caps : Finset String}
    (hacc : (t.delegate "" c caps).2 = true) : ¬ Cascades (t.delegate "" c caps).1 := by
  obtain ⟨parent, hparent, hc, -, he⟩ := delegate_accepted hacc
  have hne : "" ≠ c := fun h => hc (h ▸ mem_nodes_of_lookup hparent)
  rw [he]
  intro h
  obtain ⟨t', ht', -, -, hfree⟩ := (h c).2
  obtain ⟨s, hloop, rfl⟩ := exists_loop_of_removeRecursive ht'
  rw [AList.lookup_insert, Option.getD_some, List.foldlM_nil] at hloop
  obtain rfl := Option.some.inj hloop
  refine hfree "" ((t.children.lookup "").getD [] ++ [c]) c ?_ (by simp) ⟨?_, ReflTransGen.refl⟩
  · unfold drop unlink
    simp only [AList.lookup_insert, if_true]
    rw [AList.lookup_erase_ne hne, AList.lookup_insert_ne hne, AList.lookup_insert]
  · rw [AList.mem_insert]
    exact Or.inl rfl

/-! ### All sequences of operations -/

/-- An operation keeps a tree tidy, unless it is a delegation by the node with the empty id. -/
theorem Tidy.step (h : Tidy t) (hwf : WF t rank bound) {op : Op} (hstep : t.step op = some t')
    (hok : ∀ p c caps, op = .delegate p c caps → (t.delegate p c caps).2 = true → p ≠ "") :
    Tidy t' := by
  cases op with
  | initRoot caps =>
    obtain rfl := Option.some.inj hstep
    exact tidy_initRoot caps
  | delegate p c caps =>
    obtain rfl := Option.some.inj hstep
    cases hacc : (t.delegate p c caps).2 with
    | false => rw [delegate_refused hacc]; exact h
    | true => exact h.delegated hwf hacc (hok p c caps rfl hacc)
  | revoke n cap =>
    obtain ⟨⟨s, count⟩, hrevoke, rfl⟩ := Option.map_eq_some_iff.1 hstep
    exact h.weakened (revokeRecursive_walked _ _ _ _ _ _ hrevoke).weakened
  | removeSubtree n => exact Tidy.removed _ _ _ _ hstep h

/-- **Exact cascades.**  In all trees that a sequence of operations goes through, revocation and
removal are exact, if and only if no delegation by the node with the empty id is accepted. -/
theorem cascades_run_iff (ops : List Op) :
    (∀ pre post, ops = pre ++ post → ∃ t, pre.foldlM step empty = some t ∧ Cascades t) ↔
      ∀ pre p c caps post t, ops = pre ++ .delegate p c caps :: post →
        pre.foldlM step empty = some t → (t.delegate p c caps).2 = true → p ≠ "" := by
  constructor
  · rintro h pre p c caps post t hops hpre hacc rfl
    obtain ⟨t', ht', hcascades⟩ := h (pre ++ [.delegate "" c caps]) post (by simp [hops])
    rw [List.foldlM_append, hpre] at ht'
    obtain rfl := Option.some.inj ht'
    exact not_cascades_of_unnamed hacc hcascades
  · intro hok pre post hops
    -- the prefix leads to a well-formed and tidy tree
    suffices ∃ t, pre.foldlM step empty = some t ∧ (∃ rank bound, WF t rank bound) ∧ Tidy t by
      obtain ⟨t, hpre, ⟨rank, bound, hwf⟩, htidy⟩ := this
      exact ⟨t, hpre, cascades_of_tidy hwf htidy⟩
    induction pre using List.reverseRecOn generalizing post with
    | nil => exact ⟨empty, rfl, ⟨_, _, WF.empty⟩, tidy_empty⟩
    | append_singleton pre op ih =>
      obtain ⟨t, hpre, hwf, htidy⟩ := ih (op :: post) (by simp [hops])
      obtain ⟨t', ht', hwf'⟩ := wf_step hwf op
      obtain ⟨rank, bound, hwf⟩ := hwf
      refine ⟨t', ?_, hwf', htidy.step hwf ht' ?_⟩
      · rw [List.foldlM_append, hpre]
        simpa using ht'
      · rintro p c caps rfl
        exact hok pre p c caps post t (by simp [hops]) hpre

/-- A module called `""` delegates to a module that is then removed: its id stays behind. -/
theorem not_cascades_empty_id :
    ¬ ∀ ops t, List.foldlM step empty ops = some t → Cascades t := by
  intro h
  have hacc : ((((initRoot ∅).delegate rootId "" ∅).1).delegate "" "a" ∅).2 = true := by decide
  exact not_cascades_of_unnamed hacc
    (h [.initRoot ∅, .delegate rootId "" ∅, .delegate "" "a" ∅] _ rfl)

end AstraVeil.Daemon.CapabilityTree
