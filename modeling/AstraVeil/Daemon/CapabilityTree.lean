import AstraVeil.Lib.Runs
import Mathlib.Data.List.AList
import Mathlib.Data.Finset.Card
import Mathlib.Logic.Relation

/-!
# The capability delegation tree

`daemon/src/security/capability_tree.cpp`: capabilities are delegated from the node `"daemon"`
down to modules and their subprocesses.  Two maps are kept: `nodes_` with a parent link in every
node, and `children_` with the list of the children of every node.  The subset law is about the
parent links; revocation and removal walk the child lists.

* `WF`: the linking invariant of the two maps.  A child list may be longer than the set of the
  node's children: `removeRecursive` skips the parent's list when the parent's id is the empty
  string, so an entry may stay behind there.  It may never be shorter, and the walk along the
  child lists never returns to a node (`rank`).

Recursion is by fuel, `none` standing for running out of it; that the fuel `revoke` and
`removeSubtree` supply always suffices is part of the results about them.
-/

namespace AstraVeil.Daemon

/-- `CapabilityNode`. -/
structure CapabilityNode where
  id : String
  parentId : String
  capabilities : Finset String
  depth : ℤ

/-- `CapabilityTree`: the maps `nodes_` and `children_`. -/
structure CapabilityTree where
  nodes : AList (fun _ : String => CapabilityNode)
  children : AList (fun _ : String => List String)

namespace CapabilityTree

/-- The tree before `initRoot`. -/
def empty : CapabilityTree := ⟨∅, ∅⟩

/-- The id of the root. -/
def rootId : String := "daemon"

/-- `initRoot`. -/
def initRoot (allCapabilities : Finset String) : CapabilityTree where
  nodes := AList.insert rootId ⟨rootId, "", allCapabilities, 0⟩ ∅
  children := AList.insert rootId [] ∅

/-- `delegate`. -/
def delegate (t : CapabilityTree) (parentId childId : String) (capabilities : Finset String) :
    CapabilityTree × Bool :=
  match t.nodes.lookup parentId with
  | none => (t, false)
  | some parent =>
      if childId ∈ t.nodes then (t, false)
      else if ¬ capabilities ⊆ parent.capabilities then (t, false)
      else
        let child : CapabilityNode := ⟨childId, parentId, capabilities, parent.depth + 1⟩
        let siblings := (t.children.lookup parentId).getD []
        (⟨t.nodes.insert childId child,
          (t.children.insert parentId (siblings ++ [childId])).insert childId []⟩, true)

/-- `it->second.capabilities.erase(capability)` for the stored node `node`. -/
def eraseCapability (t : CapabilityTree) (nodeId : String) (node : CapabilityNode)
    (capability : String) : CapabilityTree :=
  let node' : CapabilityNode := { node with capabilities := node.capabilities.erase capability }
  { t with nodes := t.nodes.insert nodeId node' }

/-- `revokeRecursive`, with the counter it increments. -/
def revokeRecursive : ℕ → String → String → CapabilityTree × ℕ → Option (CapabilityTree × ℕ)
  | 0, _, _, _ => none
  | fuel + 1, nodeId, capability, (t, count) =>
      match t.nodes.lookup nodeId with
      | none => some (t, count)
      | some node =>
          let st : CapabilityTree × ℕ :=
            if capability ∈ node.capabilities then
              (t.eraseCapability nodeId node capability, count + 1)
            else (t, count)
          match st.1.children.lookup nodeId with
          | none => some st
          | some childIds =>
              childIds.foldlM (fun st childId => revokeRecursive fuel childId capability st) st

/-- `std::remove` of one id from the list of its siblings, where the parent's list exists. -/
def unlink (t : CapabilityTree) (nodeId : String) : CapabilityTree :=
  match t.nodes.lookup nodeId with
  | none => t
  | some node =>
      if node.parentId = "" then t
      else
        match t.children.lookup node.parentId with
        | none => t
        | some siblings =>
            { t with children := t.children.insert node.parentId (siblings.filter (· ≠ nodeId)) }

/-- `removeRecursive`. -/
def removeRecursive : ℕ → String → CapabilityTree → Option CapabilityTree
  | 0, _, _ => none
  | fuel + 1, nodeId, t => do
      let t ←
        match t.children.lookup nodeId with
        | none => some t
        | some childIds => do
            -- the loop runs over a copy of the list
            let t ← childIds.foldlM (fun t childId => removeRecursive fuel childId t) t
            some { t with children := t.children.erase nodeId }
      let t := t.unlink nodeId
      some { t with nodes := t.nodes.erase nodeId }

/-- Enough fuel for any walk that does not return to a node. -/
def fuel (t : CapabilityTree) : ℕ := t.nodes.keys.length + 1

/-- `revoke`, with the number of nodes that lost the capability. -/
def revoke (t : CapabilityTree) (nodeId capability : String) : Option (CapabilityTree × ℕ) :=
  revokeRecursive t.fuel nodeId capability (t, 0)

/-- `removeSubtree`. -/
def removeSubtree (t : CapabilityTree) (nodeId : String) : Option CapabilityTree :=
  removeRecursive t.fuel nodeId t

/-- `validateInvariant`. -/
def validateInvariant (t : CapabilityTree) : Bool :=
  t.nodes.entries.all fun e =>
    if e.2.parentId = "" then true
    else
      match t.nodes.lookup e.2.parentId with
      | none => false
      | some parent => decide (e.2.capabilities ⊆ parent.capabilities)

/-- `hasCapability`. -/
def hasCapability (t : CapabilityTree) (nodeId capability : String) : Bool :=
  match t.nodes.lookup nodeId with
  | none => false
  | some node => decide (capability ∈ node.capabilities)

/-- The mutating operations. -/
inductive Op
  | initRoot (allCapabilities : Finset String)
  | delegate (parentId childId : String) (capabilities : Finset String)
  | revoke (nodeId capability : String)
  | removeSubtree (nodeId : String)

/-- One operation; `none` if it did not return. -/
def step (t : CapabilityTree) : Op → Option CapabilityTree
  | .initRoot caps => some (CapabilityTree.initRoot caps)
  | .delegate p c caps => some (t.delegate p c caps).1
  | .revoke n cap => (t.revoke n cap).map Prod.fst
  | .removeSubtree n => t.removeSubtree n

/-! ### The linking invariant -/

/-- The two maps fit together.  `rank` orders the nodes by the time they were added: every entry
of a child list that is stored was added after the owner of the list. -/
structure WF (t : CapabilityTree) (rank : String → ℕ) (bound : ℕ) : Prop where
  /-- The root is stored as long as anything is. -/
  root : ∀ k, k ∈ t.nodes → ∃ r, t.nodes.lookup rootId = some r ∧ r.parentId = ""
  /-- The subset law and the depth along one parent link. -/
  parent : ∀ k n, t.nodes.lookup k = some n → k ≠ rootId →
    ∃ p, t.nodes.lookup n.parentId = some p ∧ n.depth = p.depth + 1 ∧
      n.capabilities ⊆ p.capabilities
  /-- A node stands in the child list of its parent. -/
  linked : ∀ k n, t.nodes.lookup k = some n → k ≠ rootId →
    ∃ cs, t.children.lookup n.parentId = some cs ∧ k ∈ cs
  /-- Both maps have the same keys. -/
  keys : ∀ k, k ∈ t.children ↔ k ∈ t.nodes
  /-- The root is nobody's child. -/
  rootFree : ∀ k cs, t.children.lookup k = some cs → rootId ∉ cs
  /-- Child lists lead to younger nodes. -/
  ranked : ∀ k cs c, t.children.lookup k = some cs → c ∈ cs → c ∈ t.nodes → rank k < rank c
  bounded : ∀ k, k ∈ t.nodes → rank k < bound

theorem mem_nodes_of_lookup {t : CapabilityTree} {k : String} {n : CapabilityNode}
    (h : t.nodes.lookup k = some n) : k ∈ t.nodes := by
  rw [← AList.lookup_isSome, h]; rfl

theorem WF.empty : WF empty (fun _ => 0) 0 := by
  refine ⟨?_, ?_, ?_, ?_, ?_, ?_, ?_⟩ <;> simp [CapabilityTree.empty]

theorem WF.initRoot (caps : Finset String) : WF (initRoot caps) (fun _ => 0) 1 := by
  have hk : ∀ k, k ∈ (CapabilityTree.initRoot caps).nodes ↔ k = rootId := by
    intro k
    rw [CapabilityTree.initRoot, AList.mem_insert]
    simp
  have hl : ∀ k n, (CapabilityTree.initRoot caps).nodes.lookup k = some n → k = rootId :=
    fun k n h => (hk k).1 (mem_nodes_of_lookup h)
  have hc : ∀ k cs, (CapabilityTree.initRoot caps).children.lookup k = some cs → cs = [] := by
    intro k cs h
    by_cases hkr : k = rootId
    · subst hkr
      rw [CapabilityTree.initRoot, AList.lookup_insert] at h
      exact (Option.some.inj h).symm
    · rw [CapabilityTree.initRoot, AList.lookup_insert_ne hkr] at h
      simp at h
  refine ⟨?_, ?_, ?_, ?_, ?_, ?_, ?_⟩
  · intro k _
    exact ⟨_, AList.lookup_insert _, rfl⟩
  · intro k n h hne; exact absurd (hl k n h) hne
  · intro k n h hne; exact absurd (hl k n h) hne
  · intro k
    rw [hk, CapabilityTree.initRoot, AList.mem_insert]
    simp
  · intro k cs h; simp [hc k cs h]
  · intro k cs c h hmem; simp [hc k cs h] at hmem
  · intro k _; exact Nat.zero_lt_one

end CapabilityTree

end AstraVeil.Daemon
