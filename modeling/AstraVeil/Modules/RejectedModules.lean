import AstraVeil.Lib.GraphCongr
import AstraVeil.Modules.DependencyGraph

/-!
# Rejected modules

A module that closes a cycle is put into the dependency graph first and taken out again with
`removeModule`, which takes out all that the graph has under this id.

* `Alike`: graphs with the same nodes and the same edges, in the same order; no sequence of calls
  tells them apart (`Alike.sameResults`);
* `alike_rejected`: a call rejected for a cycle leaves the graph that `removeModule` leaves;
* `sameResults_rejected_iff`: a call that throws goes unnoticed exactly when a dependency was
  missing, or the graph had neither a node nor an edge to take out.
-/

namespace AstraVeil.Modules.ModuleDependencyGraph

open Utf16 Finmaps Linked Graphs Relation Runs

variable {g g' g'' : ModuleDependencyGraph}

/-- All queries have the same results on the two graphs, also after further calls. -/
def SameResults (g g' : ModuleDependencyGraph) : Prop :=
  ∀ ops, (run step g ops).topologicalSort = (run step g' ops).topologicalSort ∧
    ∀ id, (run step g ops).dependentsOf id = (run step g' ops).dependentsOf id ∧
      ∀ inheritableCaps, (run step g ops).effectiveCapabilities id inheritableCaps =
        (run step g' ops).effectiveCapabilities id inheritableCaps

theorem SameResults.refl (g : ModuleDependencyGraph) : SameResults g g :=
  fun _ => ⟨rfl, fun _ => ⟨rfl, fun _ => rfl⟩⟩

theorem SameResults.trans (h : SameResults g g') (h' : SameResults g' g'') :
    SameResults g g'' := by
  intro ops
  obtain ⟨h1, h2⟩ := h ops
  obtain ⟨h1', h2'⟩ := h' ops
  refine ⟨h1.trans h1', fun id => ⟨(h2 id).1.trans (h2' id).1, fun inheritableCaps => ?_⟩⟩
  exact ((h2 id).2 inheritableCaps).trans ((h2' id).2 inheritableCaps)

theorem SameResults.symm (h : SameResults g g') : SameResults g' g := by
  intro ops
  obtain ⟨h1, h2⟩ := h ops
  exact ⟨h1.symm, fun id => ⟨(h2 id).1.symm, fun inheritableCaps =>
    ((h2 id).2 inheritableCaps).symm⟩⟩

/-! ### Graphs that differ only in entries without edges -/

/-- The same nodes and the same edges. -/
structure Alike (g g' : ModuleDependencyGraph) : Prop where
  nodes : g.nodes = g'.nodes
  adjacency : Agree g.adjacency g'.adjacency
  reverseAdj : Agree g.reverseAdj g'.reverseAdj

theorem Alike.foldl_link (h : Alike g g') (id : JString) (deps : List Dependency) :
    Alike (deps.foldl (link id) g) (deps.foldl (link id) g') := by
  induction deps generalizing g g' with
  | nil => exact h
  | cons dep deps ih =>
    exact ih ⟨h.nodes, h.adjacency.addTo dep.moduleId id, h.reverseAdj.addTo id dep.moduleId⟩

theorem Alike.insert (h : Alike g g') (node : Node) : Alike (g.insert node) (g'.insert node) := by
  refine Alike.foldl_link ⟨?_, h.adjacency.getOrPut _, h.reverseAdj.getOrPut _⟩ _ _
  show put g.nodes node.moduleId node = put g'.nodes node.moduleId node
  rw [h.nodes]

theorem Alike.removeModule (h : Alike g g') (id : JString) :
    Alike (g.removeModule id) (g'.removeModule id) := by
  have hrev : Agree
      ((children g.adjacency id).foldl (fun r child => removeFrom r child id) g.reverseAdj)
      ((children g'.adjacency id).foldl (fun r child => removeFrom r child id) g'.reverseAdj) := by
    rw [h.adjacency id]
    exact h.reverseAdj.foldl_removeFrom _ id
  refine ⟨congrArg (AList.erase id) h.nodes, ?_, hrev.erase id⟩
  unfold ModuleDependencyGraph.removeModule
  simp only
  rw [hrev id]
  exact (h.adjacency.erase id).foldl_removeFrom _ id

theorem Alike.hasCycle (h : Alike g g') : hasCycle g = hasCycle g' := by
  unfold ModuleDependencyGraph.hasCycle
  rw [h.nodes, cycleFrom_congr h.adjacency]

theorem Alike.step (h : Alike g g') (op : Op) : Alike (step g op) (step g' op) := by
  cases op with
  | remove id => exact h.removeModule id
  | add node installed =>
    unfold ModuleDependencyGraph.step addModule
    simp only [(h.insert node).hasCycle]
    cases node.dependencies.find? (isMissing node installed) with
    | some dep => exact h
    | none =>
      simp only
      split
      · exact (h.insert node).removeModule node.moduleId
      · exact h.insert node

theorem Alike.run (h : Alike g g') (ops : List Op) :
    Alike (Runs.run ModuleDependencyGraph.step g ops)
      (Runs.run ModuleDependencyGraph.step g' ops) := by
  induction ops generalizing g g' with
  | nil => exact h
  | cons op ops ih => exact ih (h.step op)

/-- No sequence of calls tells the two graphs apart. -/
theorem Alike.sameResults (h : Alike g g') (hc : Consistent g) : SameResults g g' := by
  intro ops
  have hrun := h.run ops
  have htarget := (hc.run ops).target
  refine ⟨?_, fun id => ⟨?_, fun inheritableCaps => ?_⟩⟩
  · unfold topologicalSort
    rw [← hrun.nodes, kahn_congr hrun.adjacency htarget]
  · unfold dependentsOf
    rw [hrun.adjacency id, reach_congr hrun.adjacency]
  · unfold effectiveCapabilities
    rw [hrun.nodes]

/-! ### What a rejected call leaves -/

theorem filter_ne_of_notMem {l : List JString} {id : JString} (h : id ∉ l) :
    l.filter (· ≠ id) = l := by
  refine List.filter_eq_self.2 fun a ha => ?_
  simpa using fun hid : a = id => h (hid ▸ ha)

/-- A module is removed from all lists of children. -/
theorem children_removeModule (h : Mirrors g) (id a : JString) :
    children (g.removeModule id).adjacency a =
        (if a = id then [] else (children g.adjacency a).filter (· ≠ id)) ∧
      children (g.removeModule id).reverseAdj a =
        (if a = id then [] else (children g.reverseAdj a).filter (· ≠ id)) := by
  -- the lists of the second map lose the id, those that do not have it included
  have hrev : ∀ b, children ((children g.adjacency id).foldl
      (fun r child => removeFrom r child id) g.reverseAdj) b =
        (children g.reverseAdj b).filter (· ≠ id) := by
    intro b
    rw [children_foldl_removeFrom]
    split_ifs with hb
    · rfl
    · exact (filter_ne_of_notMem fun hid => hb ((h.mirror id b).2 hid)).symm
  constructor
  · show children (List.foldl _ _ _) a = _
    rw [children_foldl_removeFrom, children_erase, hrev]
    by_cases ha : a = id
    · simp [ha]
    · rw [if_neg ha]
      split_ifs with hparent
      · rfl
      · refine (filter_ne_of_notMem fun hid => hparent ?_).symm
        exact List.mem_filter.2 ⟨(h.mirror a id).1 hid, by simpa using ha⟩
  · show children (AList.erase _ _) a = _
    rw [children_erase, hrev]

theorem children_foldl_link (id : JString) (deps : List Dependency) (g : ModuleDependencyGraph)
    (a : JString) :
    (children (deps.foldl (link id) g).adjacency a).filter (· ≠ id) =
        (children g.adjacency a).filter (· ≠ id) ∧
      (a ≠ id → children (deps.foldl (link id) g).reverseAdj a = children g.reverseAdj a) := by
  induction deps generalizing g with
  | nil => exact ⟨rfl, fun _ => rfl⟩
  | cons dep deps ih =>
    obtain ⟨h1, h2⟩ := ih (link id g dep)
    rw [List.foldl_cons]
    refine ⟨h1.trans ?_, fun ha => (h2 ha).trans ?_⟩
    · rw [link, children_addTo]
      split_ifs
      · simp
      · rfl
    · rw [link, children_addTo, if_neg fun hand => ha hand.1]

/-- A call rejected for a cycle leaves the graph that `removeModule` leaves. -/
theorem alike_rejected (h : Mirrors g) (node : Node) :
    Alike ((g.insert node).removeModule node.moduleId) (g.removeModule node.moduleId) := by
  have hlink := children_foldl_link node.moduleId node.dependencies
    { nodes := put g.nodes node.moduleId node
      adjacency := getOrPut g.adjacency node.moduleId
      reverseAdj := getOrPut g.reverseAdj node.moduleId }
  simp only [children_getOrPut] at hlink
  refine ⟨?_, fun a => ?_, fun a => ?_⟩
  · show AList.erase node.moduleId (g.insert node).nodes = AList.erase node.moduleId g.nodes
    rw [nodes_insert, erase_put]
  · rw [(children_removeModule (h.insert node) node.moduleId a).1,
      (children_removeModule h node.moduleId a).1]
    exact congrArg (fun l => if a = node.moduleId then [] else l) (hlink a).1
  · rw [(children_removeModule (h.insert node) node.moduleId a).2,
      (children_removeModule h node.moduleId a).2]
    by_cases ha : a = node.moduleId
    · rw [if_pos ha, if_pos ha]
    · rw [if_neg ha, if_neg ha]
      exact congrArg (List.filter (· ≠ node.moduleId)) ((hlink a).2 ha)

/-- Where the graph has neither a node nor an edge under an id, nothing is removed. -/
theorem alike_removeModule (h : Mirrors g) {id : JString} (hnode : id ∉ g.nodes)
    (hedge : ∀ m, ¬ Edge g.adjacency id m) : Alike g (g.removeModule id) := by
  refine ⟨?_, fun a => ?_, fun a => ?_⟩
  · exact (AList.ext (List.kerase_of_notMem_keys hnode)).symm
  · rw [(children_removeModule h id a).1]
    by_cases ha : a = id
    · rw [if_pos ha, ha]
      exact List.eq_nil_iff_forall_not_mem.2 hedge
    · rw [if_neg ha]
      exact (filter_ne_of_notMem fun hid => hnode (h.target a id hid)).symm
  · rw [(children_removeModule h id a).2]
    by_cases ha : a = id
    · rw [if_pos ha, ha]
      refine List.eq_nil_iff_forall_not_mem.2 fun b hb => ?_
      exact hnode (h.target b id ((h.mirror b id).2 hb))
    · rw [if_neg ha]
      exact (filter_ne_of_notMem fun hid => hedge a ((h.mirror id a).2 hid)).symm

/-! ### How a removal is noticed -/

/-- `dependentsOf(id)` shows the edges from `id`. -/
theorem not_edge_of_sameResults (h : Mirrors g) {id : JString}
    (hsame : SameResults g (g.removeModule id)) (m : JString) : ¬ Edge g.adjacency id m := by
  intro hm
  have hdep : m ∈ g.dependentsOf id := mem_reach.2 (.single hm)
  have heq : g.dependentsOf id = (g.removeModule id).dependentsOf id := ((hsame []).2 id).1
  rw [heq, dependentsOf, mem_reach] at hdep
  obtain ⟨b, hb, -⟩ := TransGen.head'_iff.1 hdep
  exact ((edge_removeModule h id id b).1.1 hb).2.1 rfl

/-- What is left when several modules are removed. -/
theorem run_remove (h : Mirrors g) (ids : List JString) :
    (∀ m, m ∈ (run step g (ids.map .remove)).nodes ↔ m ∈ g.nodes ∧ m ∉ ids) ∧
      ∀ a b, Edge (run step g (ids.map .remove)).adjacency a b ↔
        Edge g.adjacency a b ∧ a ∉ ids ∧ b ∉ ids := by
  induction ids generalizing g with
  | nil => simp
  | cons id ids ih =>
    obtain ⟨h1, h2⟩ := ih (h.removeModule id)
    rw [List.map_cons, run_cons]
    refine ⟨fun m => (h1 m).trans ?_, fun a b => (h2 a b).trans ?_⟩
    · rw [mem_removeModule, List.mem_cons]
      tauto
    · rw [(edge_removeModule h id a b).1, List.mem_cons, List.mem_cons]
      tauto

/-- With all others removed, the start order lists the one id that is left. -/
theorem sort_run_remove (h : Consistent g) (id : JString) (ids : List JString)
    (hnodes : ∀ m ∈ g.nodes, m ≠ id → m ∈ ids) (hsources : ∀ a ∈ g.adjacency, a ≠ id → a ∈ ids)
    (hid : id ∉ ids) :
    ∃ order, (run step g (ids.map .remove)).topologicalSort = some order ∧
      (id ∈ order ↔ id ∈ g.nodes) := by
  have hrun := h.run (ids.map .remove)
  obtain ⟨hmem, hedge⟩ := run_remove h.toMirrors ids
  have hnone : ∀ a b, ¬ Edge (run step g (ids.map .remove)).adjacency a b := by
    intro a b hab
    obtain ⟨he, ha, hb⟩ := (hedge a b).1 hab
    obtain rfl : a = id := by_contra fun hne => ha (hsources a (mem_of_edge he) hne)
    obtain rfl : b = a := by_contra fun hne => hb (hnodes b (h.target a b he) hne)
    exact h.acyclic b (.single he)
  obtain ⟨order, hsort, -, horder, -⟩ :=
    topologicalSort_eq_some hrun fun d m hdm => absurd hdm (hnone d m)
  refine ⟨order, hsort, (horder id).trans ((hmem id).trans ?_)⟩
  exact and_iff_left hid

/-- After the removal of all others, `topologicalSort()` shows whether `id` is a node. -/
theorem notMem_of_sameResults (h : Consistent g) {id : JString}
    (hsame : SameResults g (g.removeModule id)) : id ∉ g.nodes := by
  intro hid
  have h' : Consistent (g.removeModule id) := consistent_step h (.remove id)
  let ids := (g.nodes.keys ++ g.adjacency.keys ++ (g.removeModule id).adjacency.keys).filter
    (· ≠ id)
  have hids : ∀ a, a ∈ ids ↔ (a ∈ g.nodes ∨ a ∈ g.adjacency ∨
      a ∈ (g.removeModule id).adjacency) ∧ a ≠ id := by
    intro a
    simp only [ids, List.mem_filter, List.mem_append, AList.mem_keys, or_assoc, decide_eq_true_eq]
  obtain ⟨order, hsort, horder⟩ := sort_run_remove h id ids
    (fun m hm hne => (hids m).2 ⟨Or.inl hm, hne⟩)
    (fun a ha hne => (hids a).2 ⟨Or.inr (Or.inl ha), hne⟩) fun hm => ((hids id).1 hm).2 rfl
  obtain ⟨order', hsort', horder'⟩ := sort_run_remove h' id ids
    (fun m hm hne => (hids m).2 ⟨Or.inl (mem_removeModule.1 hm).1, hne⟩)
    (fun a ha hne => (hids a).2 ⟨Or.inr (Or.inr ha), hne⟩) fun hm => ((hids id).1 hm).2 rfl
  have heq := (hsame (ids.map .remove)).1
  rw [hsort, hsort'] at heq
  obtain rfl := Option.some.inj heq
  exact (mem_removeModule.1 (horder'.1 (horder.2 hid))).2 rfl

/-! ### Calls that throw -/

theorem addModule_missing {node : Node} {installed : List JString}
    (h : ∃ dep ∈ node.dependencies, isMissing node installed dep = true) :
    (g.addModule node installed).2 = g := by
  obtain ⟨dep, hdep, hmiss⟩ := h
  unfold addModule
  cases hfind : node.dependencies.find? (isMissing node installed) with
  | some dep => rfl
  | none => exact absurd hmiss (List.find?_eq_none.1 hfind dep hdep)

/-- **A call of `addModule` that throws goes unnoticed exactly when a dependency was missing, or
the graph had neither a node with this id nor an edge from it.** -/
theorem sameResults_rejected_iff (ops : List Op) {node : Node} {installed : List JString}
    (hthrows : ((run step empty ops).addModule node installed).1 ≠ none) :
    SameResults (run step empty ops) ((run step empty ops).addModule node installed).2 ↔
      (∃ dep ∈ node.dependencies, isMissing node installed dep = true) ∨
        (node.moduleId ∉ (run step empty ops).nodes ∧
          ∀ m, ¬ Edge (run step empty ops).adjacency node.moduleId m) := by
  have hc := consistent_run ops
  by_cases hmiss : ∃ dep ∈ node.dependencies, isMissing node installed dep = true
  · rw [addModule_missing hmiss]
    exact iff_of_true (SameResults.refl _) (Or.inl hmiss)
  have hcircular : ((run step empty ops).addModule node installed).2 =
      ((run step empty ops).insert node).removeModule node.moduleId := by
    rcases addModule_cases (run step empty ops) node installed with
      ⟨dep, hdep, hdm, -⟩ | ⟨-, heq⟩ | ⟨-, heq⟩
    · exact absurd ⟨dep, hdep, hdm⟩ hmiss
    · rw [heq]
    · rw [heq] at hthrows
      exact absurd rfl hthrows
  -- the call did what a removal does
  have hremoved : SameResults ((run step empty ops).removeModule node.moduleId)
      ((run step empty ops).addModule node installed).2 := by
    rw [hcircular]
    refine ((alike_rejected hc.toMirrors node).sameResults ?_).symm
    rw [← hcircular]
    exact consistent_step hc (.add node installed)
  constructor
  · intro hsame
    have hsame' := hsame.trans hremoved.symm
    exact Or.inr ⟨notMem_of_sameResults hc hsame', not_edge_of_sameResults hc.toMirrors hsame'⟩
  · rintro (hmiss' | ⟨hnode, hedge⟩)
    · exact absurd hmiss' hmiss
    · exact ((alike_removeModule hc.toMirrors hnode hedge).sameResults hc).trans hremoved

/-- A module `a` that depends on another one. -/
def nodeADependingOn (id : JString) : Node := ⟨[0x61], ∅, [⟨id, ofString "0.0.0", false⟩]⟩

/-- `a`, depending on itself, is not added to an empty graph, and nothing tells that it was
tried. -/
theorem sameResults_selfDependent :
    (empty.addModule (nodeADependingOn [0x61]) []).1.isSome = true ∧
      SameResults empty (empty.addModule (nodeADependingOn [0x61]) []).2 := by
  have hthrows : (empty.addModule (nodeADependingOn [0x61]) []).1.isSome = true := by decide
  refine ⟨hthrows, ?_⟩
  refine (sameResults_rejected_iff [] (Option.isSome_iff_ne_none.1 hthrows)).2 ?_
  refine Or.inr ⟨AList.notMem_empty _, fun m => ?_⟩
  exact not_edge_empty _ _

/-- `b` depends on `a`, and a new version of `a` depends on `b`: with the new version the old one
is taken out. -/
theorem not_sameResults_upgraded :
    ¬ ∀ (ops : List Op) (node : Node) (installed : List JString),
      ((run step empty ops).addModule node installed).1 ≠ none →
        SameResults (run step empty ops) ((run step empty ops).addModule node installed).2 := by
  intro h
  have hthrows : ((run step empty [.add nodeA [], .add (nodeB false) [[0x61]]]).addModule
      (nodeADependingOn [0x62]) [[0x62]]).1.isSome = true := by decide
  have hsort := (h _ _ _ (Option.isSome_iff_ne_none.1 hthrows) []).1
  have hbefore : (run step empty [.add nodeA [], .add (nodeB false) [[0x61]]]).topologicalSort =
      some [[0x61], [0x62]] := by decide
  have hafter : ((run step empty [.add nodeA [], .add (nodeB false) [[0x61]]]).addModule
      (nodeADependingOn [0x62]) [[0x62]]).2.topologicalSort = some [[0x62]] := by decide
  rw [run_nil, run_nil, hbefore, hafter] at hsort
  simp at hsort

end AstraVeil.Modules.ModuleDependencyGraph
