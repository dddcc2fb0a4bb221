import AstraVeil.Lib.Graphs
import AstraVeil.Lib.Runs
import AstraVeil.Lib.Utf16

/-!
# The module dependency graph

`modules/dependency/ModuleDependencyGraph.kt`: the nodes with their declared dependencies, and two
maps of edges that are edited along with them.

* `Consistent`: what every sequence of calls keeps: the two edge maps mirror each other, an edge
  ends in a node, and there is no cycle;
* `topologicalSort_eq_some`, `topologicalSort_eq_none`: a start order is found exactly when every
  edge starts in a node;
* `cycleDetection_exact`: a module is refused for a cycle exactly when its edges would close one;
* `startOrder_run`: it is a start order of the declared dependencies in every run that adds no
  module before its dependencies and brings back none that others still declare;
* `faithful_run_iff`: the edges are the declared dependencies throughout a run exactly when no
  module is added again with fewer dependencies and none is removed that another one declares.
-/

namespace AstraVeil.Modules

open Utf16 Finmaps Linked Graphs Relation Runs

namespace ModuleDependencyGraph

/-- `ModuleDependencyGraph.Dependency`. -/
structure Dependency where
  moduleId : JString
  minVersion : JString
  optional : Bool

/-- `ModuleDependencyGraph.Node`. -/
structure Node where
  moduleId : JString
  capabilities : LinkedSet JString
  dependencies : List Dependency

/-- The ids of the declared dependencies. -/
def Node.deps (node : Node) : List JString := node.dependencies.map (·.moduleId)

end ModuleDependencyGraph

/-- `ModuleDependencyGraph`: the modules that were added, and the edges of their dependencies. -/
structure ModuleDependencyGraph where
  nodes : Map JString ModuleDependencyGraph.Node
  adjacency : Adjacency JString
  reverseAdj : Adjacency JString

/-- The exceptions of `addModule`, with their messages. -/
inductive AddFailure
  | missingDependency (message : JString)
  | circularDependency (message : JString)

namespace ModuleDependencyGraph

/-- The graph of a new object. -/
def empty : ModuleDependencyGraph := ⟨∅, ∅, ∅⟩

/-- `removeModule`. -/
def removeModule (g : ModuleDependencyGraph) (moduleId : JString) : ModuleDependencyGraph :=
  let reverseAdj := (children g.adjacency moduleId).foldl
    (fun r child => removeFrom r child moduleId) g.reverseAdj
  { nodes := g.nodes.erase moduleId
    adjacency := (children reverseAdj moduleId).foldl
      (fun a parent => removeFrom a parent moduleId) (g.adjacency.erase moduleId)
    reverseAdj := reverseAdj.erase moduleId }

/-- `hasCycle`. -/
def hasCycle (g : ModuleDependencyGraph) : Bool := cycleFrom g.adjacency g.nodes.keys

/-- The edges of one dependency. -/
def link (id : JString) (g : ModuleDependencyGraph) (dep : Dependency) : ModuleDependencyGraph :=
  { g with
    adjacency := addTo g.adjacency dep.moduleId id
    reverseAdj := addTo g.reverseAdj id dep.moduleId }

/-- The part of `addModule` that puts the node and its edges in. -/
def insert (g : ModuleDependencyGraph) (node : Node) : ModuleDependencyGraph :=
  node.dependencies.foldl (link node.moduleId)
    { nodes := put g.nodes node.moduleId node
      adjacency := getOrPut g.adjacency node.moduleId
      reverseAdj := getOrPut g.reverseAdj node.moduleId }

/-- The check at the start of `addModule`. -/
def isMissing (node : Node) (installedModules : List JString) (dep : Dependency) : Bool :=
  !dep.optional && !installedModules.contains dep.moduleId && dep.moduleId ≠ node.moduleId

/-- The message about a dependency that is not installed. -/
def missingMessage (node : Node) (dep : Dependency) : JString :=
  ofString "Module '" ++ node.moduleId ++ ofString "' requires '" ++ dep.moduleId ++
    ofString "' (min " ++ dep.minVersion ++ ofString ") which is not installed"

/-- The message about a module that would close a cycle. -/
def circularMessage (node : Node) : JString :=
  ofString "Adding '" ++ node.moduleId ++ ofString "' would create a circular dependency"

/-- `addModule`: what it throws, and the graph it leaves. -/
def addModule (g : ModuleDependencyGraph) (node : Node) (installedModules : List JString) :
    Option AddFailure × ModuleDependencyGraph :=
  match node.dependencies.find? (isMissing node installedModules) with
  | some dep => (some (.missingDependency (missingMessage node dep)), g)
  | none =>
      if hasCycle (g.insert node) then
        (some (.circularDependency (circularMessage node)),
          (g.insert node).removeModule node.moduleId)
      else (none, g.insert node)

/-- `topologicalSort`. -/
def topologicalSort (g : ModuleDependencyGraph) : Option (List JString) :=
  let sorted := kahn g.adjacency g.nodes.keys
  if sorted.length = g.nodes.keys.length then some sorted else none

/-- `dependentsOf`. -/
def dependentsOf (g : ModuleDependencyGraph) (moduleId : JString) : LinkedSet JString :=
  reach g.adjacency (children g.adjacency moduleId).reverse ∅

/-- `effectiveCapabilities`. -/
def effectiveCapabilities (g : ModuleDependencyGraph) (moduleId : JString)
    (inheritableCaps : Map JString (LinkedSet JString)) : LinkedSet JString :=
  match g.nodes.lookup moduleId with
  | none => ∅
  | some node =>
      node.deps.foldl (fun effective d =>
        match inheritableCaps.lookup d with
        | none => effective
        | some caps => caps.toList.foldl LinkedSet.add effective) node.capabilities

/-- A call that changes the graph. -/
inductive Op
  | add (node : Node) (installedModules : List JString)
  | remove (moduleId : JString)

/-- The graph after a call, whether it throws or not. -/
def step (g : ModuleDependencyGraph) : Op → ModuleDependencyGraph
  | .add node installedModules => (g.addModule node installedModules).2
  | .remove moduleId => g.removeModule moduleId

/-- The call does not throw. -/
def Returns (g : ModuleDependencyGraph) : Op → Prop
  | .add node installedModules => (g.addModule node installedModules).1 = none
  | .remove _ => True

/-- `m` is a node whose stored `Node` lists `d` as a dependency. -/
def Declares (g : ModuleDependencyGraph) (m d : JString) : Prop :=
  ∃ node, g.nodes.lookup m = some node ∧ d ∈ node.deps

/-! ### What one call does to nodes and edges -/

variable {g : ModuleDependencyGraph}

theorem foldl_link (id : JString) (deps : List Dependency) (g : ModuleDependencyGraph) :
    (deps.foldl (link id) g).nodes = g.nodes ∧
      (∀ a b, Edge (deps.foldl (link id) g).adjacency a b ↔
        Edge g.adjacency a b ∨ (a ∈ deps.map (·.moduleId) ∧ b = id)) ∧
      ∀ a b, Edge (deps.foldl (link id) g).reverseAdj a b ↔
        Edge g.reverseAdj a b ∨ (b ∈ deps.map (·.moduleId) ∧ a = id) := by
  induction deps generalizing g with
  | nil => simp
  | cons dep deps ih =>
    obtain ⟨h1, h2, h3⟩ := ih (link id g dep)
    rw [List.foldl_cons]
    refine ⟨h1, fun a b => ?_, fun a b => ?_⟩
    · rw [h2, link, edge_addTo, List.map_cons, List.mem_cons]
      tauto
    · rw [h3, link, edge_addTo, List.map_cons, List.mem_cons]
      tauto

theorem nodes_insert (g : ModuleDependencyGraph) (node : Node) :
    (g.insert node).nodes = put g.nodes node.moduleId node := (foldl_link _ _ _).1

theorem edge_insert (g : ModuleDependencyGraph) (node : Node) (a b : JString) :
    Edge (g.insert node).adjacency a b ↔
      Edge g.adjacency a b ∨ (a ∈ node.deps ∧ b = node.moduleId) := by
  rw [insert, (foldl_link _ _ _).2.1, edge_getOrPut]
  rfl

theorem edge_reverse_insert (g : ModuleDependencyGraph) (node : Node) (a b : JString) :
    Edge (g.insert node).reverseAdj a b ↔
      Edge g.reverseAdj a b ∨ (b ∈ node.deps ∧ a = node.moduleId) := by
  rw [insert, (foldl_link _ _ _).2.2, edge_getOrPut]
  rfl

/-- The two edge maps mirror each other, and an edge ends in a node. -/
structure Mirrors (g : ModuleDependencyGraph) : Prop where
  mirror : ∀ d m, Edge g.adjacency d m ↔ Edge g.reverseAdj m d
  target : ∀ d m, Edge g.adjacency d m → m ∈ g.nodes

theorem Mirrors.insert (h : Mirrors g) (node : Node) : Mirrors (g.insert node) where
  mirror d m := by rw [edge_insert, edge_reverse_insert, h.mirror]
  target d m hdm := by
    rw [nodes_insert, mem_put]
    rcases (edge_insert g node d m).1 hdm with he | ⟨-, rfl⟩
    · exact Or.inl (h.target d m he)
    · exact Or.inr rfl

/-- A module is removed with all its edges. -/
theorem edge_removeModule (h : Mirrors g) (id a b : JString) :
    (Edge (g.removeModule id).adjacency a b ↔ Edge g.adjacency a b ∧ a ≠ id ∧ b ≠ id) ∧
      (Edge (g.removeModule id).reverseAdj a b ↔ Edge g.reverseAdj a b ∧ a ≠ id ∧ b ≠ id) := by
  have hrev : ∀ a b, Edge ((children g.adjacency id).foldl
      (fun r child => removeFrom r child id) g.reverseAdj) a b ↔
        Edge g.reverseAdj a b ∧ b ≠ id := by
    intro a b
    rw [edge_foldl_removeFrom]
    refine and_congr_right fun hab => ⟨?_, fun hb hm => hb hm.2⟩
    rintro hnot rfl
    exact hnot ⟨(h.mirror b a).2 hab, rfl⟩
  constructor
  · show Edge (List.foldl _ _ _) a b ↔ _
    rw [edge_foldl_removeFrom, edge_erase, and_assoc]
    refine and_congr_right fun hab => and_congr_right fun ha => ⟨?_, fun hb hm => hb hm.2⟩
    rintro hnot rfl
    exact hnot ⟨(hrev b a).2 ⟨(h.mirror a b).1 hab, ha⟩, rfl⟩
  · show Edge (AList.erase _ _) a b ↔ _
    rw [edge_erase, hrev, and_assoc, and_comm (a := b ≠ id)]

theorem lookup_removeModule (g : ModuleDependencyGraph) (id m : JString) :
    (g.removeModule id).nodes.lookup m = if m = id then none else g.nodes.lookup m := by
  show (g.nodes.erase id).lookup m = _
  by_cases hm : m = id
  · subst hm
    simp
  · rw [AList.lookup_erase_ne hm, if_neg hm]

theorem mem_removeModule {id m : JString} :
    m ∈ (g.removeModule id).nodes ↔ m ∈ g.nodes ∧ m ≠ id := by
  rw [mem_iff_exists, mem_iff_exists, lookup_removeModule]
  by_cases hm : m = id
  · simp [hm]
  · simp [hm]

theorem Mirrors.removeModule (h : Mirrors g) (id : JString) : Mirrors (g.removeModule id) where
  mirror d m := by
    rw [(edge_removeModule h id d m).1, (edge_removeModule h id m d).2, h.mirror,
      and_comm (a := d ≠ id)]
  target d m hdm := by
    obtain ⟨he, -, hm⟩ := (edge_removeModule h id d m).1.1 hdm
    exact mem_removeModule.2 ⟨h.target d m he, hm⟩

/-- No id depends on itself, directly or not. -/
def Acyclic (g : ModuleDependencyGraph) : Prop := ∀ a, ¬ TransGen (Edge g.adjacency) a a

theorem Acyclic.mono {g' : ModuleDependencyGraph} (h : Acyclic g)
    (hsub : ∀ a b, Edge g'.adjacency a b → Edge g.adjacency a b) : Acyclic g' :=
  fun a hcycle => h a (TransGen.mono hsub a a hcycle)

/-- `hasCycle` starts from the nodes only, and that is enough. -/
theorem hasCycle_iff (h : Mirrors g) : hasCycle g = false ↔ Acyclic g := by
  constructor
  · intro hc a hcycle
    obtain ⟨b, -, hba⟩ := TransGen.tail'_iff.1 hcycle
    have ha : a ∈ g.nodes.keys := h.target b a hba
    exact not_transGen_self_of_acc (acc_of_not_cycleFrom hc a ha) hcycle
  · intro hac
    by_contra hc
    obtain ⟨a, ha⟩ := exists_cycle_of_cycleFrom (Bool.not_eq_false _ ▸ hc)
    exact hac a ha

/-- What every sequence of calls keeps. -/
structure Consistent (g : ModuleDependencyGraph) : Prop extends Mirrors g where
  acyclic : Acyclic g

theorem consistent_empty : Consistent empty where
  mirror d m := by simp [empty]
  target d m h := by simp [empty] at h
  acyclic a h := by
    obtain ⟨b, hb, -⟩ := TransGen.head'_iff.1 h
    simp [empty] at hb

/-- What a call of `addModule` can come to. -/
theorem addModule_cases (g : ModuleDependencyGraph) (node : Node) (installed : List JString) :
    (∃ dep ∈ node.dependencies, isMissing node installed dep = true ∧
      g.addModule node installed = (some (.missingDependency (missingMessage node dep)), g)) ∨
    (hasCycle (g.insert node) = true ∧
      g.addModule node installed = (some (.circularDependency (circularMessage node)),
        (g.insert node).removeModule node.moduleId)) ∨
    (hasCycle (g.insert node) = false ∧ g.addModule node installed = (none, g.insert node)) := by
  unfold addModule
  cases hfind : node.dependencies.find? (isMissing node installed) with
  | some dep =>
    exact Or.inl ⟨dep, List.mem_of_find?_eq_some hfind, List.find?_some hfind, rfl⟩
  | none =>
    cases hc : hasCycle (g.insert node) with
    | true => exact Or.inr (Or.inl ⟨rfl, by simp⟩)
    | false => exact Or.inr (Or.inr ⟨rfl, by simp⟩)

/-- The edges a rejected module leaves behind are edges there were. -/
theorem edge_rejected (h : Mirrors g) (node : Node) (a b : JString) :
    Edge ((g.insert node).removeModule node.moduleId).adjacency a b ↔
      Edge g.adjacency a b ∧ a ≠ node.moduleId ∧ b ≠ node.moduleId := by
  rw [(edge_removeModule (h.insert node) node.moduleId a b).1, edge_insert]
  tauto

theorem consistent_step (h : Consistent g) (op : Op) : Consistent (step g op) := by
  cases op with
  | remove id =>
    exact ⟨h.toMirrors.removeModule id, h.acyclic.mono fun a b hab =>
      ((edge_removeModule h.toMirrors id a b).1.1 hab).1⟩
  | add node installed =>
    rw [step]
    rcases addModule_cases g node installed with ⟨dep, -, -, heq⟩ | ⟨-, heq⟩ | ⟨hc, heq⟩
    · rw [heq]
      exact h
    · rw [heq]
      exact ⟨(h.toMirrors.insert node).removeModule node.moduleId, h.acyclic.mono fun a b hab =>
        ((edge_rejected h.toMirrors node a b).1 hab).1⟩
    · rw [heq]
      exact ⟨h.toMirrors.insert node, (hasCycle_iff (h.toMirrors.insert node)).1 hc⟩

theorem Consistent.run (h : Consistent g) (ops : List Op) : Consistent (run step g ops) :=
  run_invariant (I := Consistent) (fun _ op h => consistent_step h op) h ops

theorem consistent_run (ops : List Op) : Consistent (run step empty ops) :=
  consistent_empty.run ops

/-! ### The start order -/

/-- Every edge starts in a node: the sort lists all nodes, each after the starts of its edges. -/
theorem topologicalSort_eq_some (h : Consistent g)
    (hsource : ∀ d m, Edge g.adjacency d m → d ∈ g.nodes) :
    ∃ order, g.topologicalSort = some order ∧ order.Nodup ∧ (∀ m, m ∈ order ↔ m ∈ g.nodes) ∧
      ∀ d m, Edge g.adjacency d m → order.idxOf d < order.idxOf m := by
  obtain ⟨hnd, hord, hmem⟩ := kahn_spec g.adjacency g.nodes.keys
  have hiff : ∀ m, m ∈ kahn g.adjacency g.nodes.keys ↔ m ∈ g.nodes := by
    intro m
    constructor
    · intro hm
      rcases ((hmem m).1 hm).1 with hk | ⟨d, hd⟩
      · exact hk
      · exact h.target d m hd
    · intro hm
      exact mem_kahn_of_acc hsource (acc_of_acyclic h.acyclic m) hm
  have hperm : (kahn g.adjacency g.nodes.keys).Perm g.nodes.keys :=
    (List.perm_ext_iff_of_nodup hnd g.nodes.keys_nodup).2 hiff
  refine ⟨kahn g.adjacency g.nodes.keys, if_pos hperm.length_eq, hnd, hiff, ?_⟩
  intro d m hdm
  refine idxOf_lt_of_pairwise hord ((hiff d).2 (hsource d m hdm)) ((hiff m).2 (h.target d m hdm))
    ?_ hdm
  rintro rfl
  exact h.acyclic d (.single hdm)

/-- An edge that starts in an id without a node: its end is never listed. -/
theorem topologicalSort_eq_none (h : Consistent g) {d m : JString} (hdm : Edge g.adjacency d m)
    (hd : d ∉ g.nodes) : g.topologicalSort = none := by
  obtain ⟨hnd, -, hmem⟩ := kahn_spec g.adjacency g.nodes.keys
  have hsub : kahn g.adjacency g.nodes.keys ⊆ g.nodes.keys := by
    intro b hb
    rcases ((hmem b).1 hb).1 with hk | ⟨a, ha⟩
    · exact hk
    · exact h.target a b ha
  refine if_neg fun hlen => hd ?_
  have hperm := (List.subperm_of_subset hnd hsub).perm_of_length_le hlen.ge
  have hm : m ∈ kahn g.adjacency g.nodes.keys := hperm.mem_iff.2 (h.target d m hdm)
  exact hsub (((hmem m).1 hm).2 d hdm)

/-- A list is a topological order of the graph: every node once, and every edge forward. -/
def IsTopological (g : ModuleDependencyGraph) (order : List JString) : Prop :=
  order.Nodup ∧ (∀ m, m ∈ order ↔ m ∈ g.nodes) ∧
    ∀ d m, Edge g.adjacency d m → d ∈ order ∧ order.idxOf d < order.idxOf m

theorem isTopological_of_sort (h : Consistent g) {order : List JString}
    (hsort : g.topologicalSort = some order) : IsTopological g order := by
  have hsource : ∀ d m, Edge g.adjacency d m → d ∈ g.nodes := by
    intro d m hdm
    by_contra hd
    rw [topologicalSort_eq_none h hdm hd] at hsort
    cases hsort
  obtain ⟨order', hsort', hnd, hmem, hedge⟩ := topologicalSort_eq_some h hsource
  rw [hsort] at hsort'
  obtain rfl := Option.some.inj hsort'
  exact ⟨hnd, hmem, fun d m hdm => ⟨(hmem d).2 (hsource d m hdm), hedge d m hdm⟩⟩

/-- The mandatory dependencies of a node are installed, itself apart. -/
def HasDependencies (node : Node) (installedModules : List JString) : Prop :=
  ∀ dep ∈ node.dependencies, dep.optional = false →
    dep.moduleId ∈ installedModules ∨ dep.moduleId = node.moduleId

theorem HasDependencies.not_missing {node : Node} {installed : List JString}
    (h : HasDependencies node installed) {dep : Dependency} (hdep : dep ∈ node.dependencies) :
    isMissing node installed dep = false := by
  cases hopt : dep.optional with
  | true => simp [isMissing, hopt]
  | false => rcases h dep hdep hopt with hin | hself <;> simp [isMissing, *]

/-- A cycle is reported exactly when the new edges make one. -/
theorem circular_iff (h : Consistent g) {node : Node} {installed : List JString}
    (hdeps : HasDependencies node installed) :
    (∃ message, (g.addModule node installed).1 = some (.circularDependency message)) ↔
      ∃ a, TransGen (fun d m => Edge g.adjacency d m ∨ (d ∈ node.deps ∧ m = node.moduleId))
        a a := by
  have hrel : Edge (g.insert node).adjacency =
      fun d m => Edge g.adjacency d m ∨ (d ∈ node.deps ∧ m = node.moduleId) := by
    funext d m
    exact propext (edge_insert g node d m)
  have hiff := hasCycle_iff (h.toMirrors.insert node)
  rw [Acyclic, hrel] at hiff
  rcases addModule_cases g node installed with ⟨dep, hdep, hmiss, -⟩ | ⟨hc, heq⟩ | ⟨hc, heq⟩
  · rw [hdeps.not_missing hdep] at hmiss
    cases hmiss
  · rw [heq]
    refine iff_of_true ⟨_, rfl⟩ ?_
    by_contra hnone
    rw [hiff.2 (not_exists.1 hnone)] at hc
    cases hc
  · rw [heq]
    refine iff_of_false (by simp) ?_
    exact not_exists.2 (hiff.1 hc)

/-- **Cycle detection is exact.**  In every graph that calls lead to, a module with its mandatory
dependencies installed is refused for a cycle exactly when its edges would close one; the graph
itself has no cycle; and a list that `topologicalSort` returns is a topological order of it. -/
theorem cycleDetection_exact (ops : List Op) :
    (∀ node installed, HasDependencies node installed →
      ((∃ message, ((run step empty ops).addModule node installed).1 =
          some (.circularDependency message)) ↔
        ∃ a, TransGen (fun d m => Edge (run step empty ops).adjacency d m ∨
          (d ∈ node.deps ∧ m = node.moduleId)) a a)) ∧
      Acyclic (run step empty ops) ∧
      ∀ order, (run step empty ops).topologicalSort = some order →
        IsTopological (run step empty ops) order := by
  have h := consistent_run ops
  exact ⟨fun node installed hdeps => circular_iff h hdeps, h.acyclic,
    fun order hsort => isTopological_of_sort h hsort⟩

/-- `topologicalSort()` lists every module of the graph once, after those of its declared
dependencies that are in the graph. -/
def SortsModules (g : ModuleDependencyGraph) : Prop :=
  ∃ order, g.topologicalSort = some order ∧ order.Nodup ∧ (∀ m, m ∈ order ↔ m ∈ g.nodes) ∧
    ∀ m d, Declares g m d → d ∈ g.nodes → order.idxOf d < order.idxOf m

/-- A module that gets added has all its dependencies in the graph, and if it is not in the graph
itself no module in the graph declares it. -/
def InOrder (g : ModuleDependencyGraph) : Op → Prop
  | .add node installed => (g.addModule node installed).1 = none →
      (∀ d ∈ node.deps, d ∈ g.nodes) ∧
        (node.moduleId ∉ g.nodes → ∀ m, ¬ Declares g m node.moduleId)
  | .remove _ => True

/-- An edge starts in a node, and there is one for each dependency in the graph. -/
structure Anchored (g : ModuleDependencyGraph) : Prop where
  source : ∀ d m, Edge g.adjacency d m → d ∈ g.nodes
  declared : ∀ m d, Declares g m d → d ∈ g.nodes → Edge g.adjacency d m

theorem declares_insert {node : Node} {m d : JString} :
    Declares (g.insert node) m d ↔
      if m = node.moduleId then d ∈ node.deps else Declares g m d := by
  unfold Declares
  rw [nodes_insert, lookup_put]
  by_cases hm : m = node.moduleId
  · simp [hm]
  · simp [hm]

theorem declares_removeModule {id m d : JString} :
    Declares (g.removeModule id) m d ↔ m ≠ id ∧ Declares g m d := by
  unfold Declares
  rw [lookup_removeModule]
  by_cases hm : m = id
  · simp [hm]
  · simp [hm]

/-- Taking a module out leaves the others with their edges. -/
theorem Anchored.of_removed {g' : ModuleDependencyGraph} (h : Anchored g) (id : JString)
    (hedge : ∀ a b, Edge g'.adjacency a b ↔ Edge g.adjacency a b ∧ a ≠ id ∧ b ≠ id)
    (hmem : ∀ m, m ∈ g'.nodes ↔ m ∈ g.nodes ∧ m ≠ id)
    (hdecl : ∀ m d, Declares g' m d ↔ m ≠ id ∧ Declares g m d) : Anchored g' where
  source d m hdm := by
    obtain ⟨he, hd, -⟩ := (hedge d m).1 hdm
    exact (hmem d).2 ⟨h.source d m he, hd⟩
  declared m d hdm hd := by
    obtain ⟨hm, hdm⟩ := (hdecl m d).1 hdm
    obtain ⟨hd, hne⟩ := (hmem d).1 hd
    exact (hedge d m).2 ⟨h.declared m d hdm hd, hne, hm⟩

theorem Anchored.insert (h : Anchored g) {node : Node} (hdeps : ∀ d ∈ node.deps, d ∈ g.nodes)
    (hnew : node.moduleId ∉ g.nodes → ∀ m, ¬ Declares g m node.moduleId) :
    Anchored (g.insert node) where
  source d m hdm := by
    rw [nodes_insert, mem_put]
    rcases (edge_insert g node d m).1 hdm with he | ⟨hd, -⟩
    · exact Or.inl (h.source d m he)
    · exact Or.inl (hdeps d hd)
  declared m d hdm hd := by
    rw [declares_insert] at hdm
    rw [nodes_insert, mem_put] at hd
    rw [edge_insert]
    by_cases hm : m = node.moduleId
    · rw [if_pos hm] at hdm
      exact Or.inr ⟨hdm, hm⟩
    · rw [if_neg hm] at hdm
      refine Or.inl (h.declared m d hdm ?_)
      rcases hd with hd | rfl
      · exact hd
      · by_contra hnot
        exact hnew hnot m hdm

theorem anchored_step (hc : Consistent g) (h : Anchored g) {op : Op} (hok : InOrder g op) :
    Anchored (step g op) := by
  cases op with
  | remove id =>
    exact h.of_removed id (fun a b => (edge_removeModule hc.toMirrors id a b).1)
      (fun _ => mem_removeModule) fun _ _ => declares_removeModule
  | add node installed =>
    rw [step]
    rcases addModule_cases g node installed with ⟨dep, -, -, heq⟩ | ⟨-, heq⟩ | ⟨-, heq⟩
    · rw [heq]
      exact h
    · rw [heq]
      refine h.of_removed node.moduleId (edge_rejected hc.toMirrors node) (fun m => ?_)
        fun m d => ?_
      · rw [mem_removeModule, nodes_insert, mem_put]
        tauto
      · rw [declares_removeModule, declares_insert]
        refine and_congr_right fun hm => ?_
        rw [if_neg hm]
    · obtain ⟨hdeps, hnew⟩ := hok (by rw [heq])
      rw [heq]
      exact h.insert hdeps hnew

/-- **Every run that adds no module before its dependencies and brings back none that others still
declare has a start order in every state.** -/
theorem startOrder_run {ops : List Op} (hok : Along step InOrder empty ops) {pre post : List Op}
    (hcut : ops = pre ++ post) : SortsModules (run step empty pre) := by
  subst hcut
  obtain ⟨hc, hanchored⟩ := run_invariant_of (I := fun g => Consistent g ∧ Anchored g)
    (fun g op h hop => ⟨consistent_step h.1 op, anchored_step h.1 h.2 hop⟩)
    (show Consistent empty ∧ Anchored empty from ⟨consistent_empty,
      ⟨fun d m h => by simp [empty] at h, fun m d h => by simp [Declares, empty] at h⟩⟩)
    (along_append.1 hok).1
  obtain ⟨order, hsort, hnd, hmem, hedge⟩ := topologicalSort_eq_some hc hanchored.source
  exact ⟨order, hsort, hnd, hmem, fun m d hdm hd => hedge d m (hanchored.declared m d hdm hd)⟩

/-- The module `a`, without dependencies. -/
def nodeA : Node := ⟨[0x61], ∅, []⟩

/-- The module `b`, which depends on `a`. -/
def nodeB (optional : Bool) : Node := ⟨[0x62], ∅, [⟨[0x61], ofString "0.0.0", optional⟩]⟩

/-- `a`, then `b`, then `a` is removed. -/
theorem startOrder_removed :
    SortsModules (run step empty [.add nodeA [], .add (nodeB false) [[0x61]], .remove [0x61]]) := by
  have hok : Along step InOrder empty
      [.add nodeA [], .add (nodeB false) [[0x61]], .remove [0x61]] := by
    refine ⟨fun _ => ⟨by simp [nodeA, Node.deps], fun _ m => by simp [Declares, empty]⟩,
      fun _ => ⟨?_, fun _ m => ?_⟩, trivial, trivial⟩
    · simp only [nodeB, Node.deps, List.map_cons, List.map_nil, List.forall_mem_singleton]
      decide
    · have hnodes : (step empty (.add nodeA [])).nodes = put ∅ [0x61] nodeA := rfl
      rintro ⟨node, hnode, hmem⟩
      rw [hnodes, lookup_put] at hnode
      by_cases hm : m = [0x61]
      · rw [if_pos hm] at hnode
        obtain rfl := Option.some.inj hnode
        simp [nodeA, Node.deps] at hmem
      · rw [if_neg hm] at hnode
        simp at hnode
  exact startOrder_run hok (List.append_nil _).symm

/-- `b` alone, its dependency being optional: there is no start order. -/
theorem not_sortsModules_optional :
    ¬ ∀ ops : List Op, SortsModules (run step empty ops) := by
  intro h
  obtain ⟨order, hsort, -⟩ := h [.add (nodeB true) []]
  have hnone : (run step empty [.add (nodeB true) []]).topologicalSort = none := by decide
  rw [hnone] at hsort
  cases hsort

/-! ### Edges and declarations -/

/-- The edges are the declared dependencies, and `dependentsOf` follows them. -/
def Faithful (g : ModuleDependencyGraph) : Prop :=
  (∀ d m, (Edge g.adjacency d m ↔ Declares g m d) ∧ (Declares g m d ↔ Edge g.reverseAdj m d)) ∧
    ∀ d m, m ∈ g.dependentsOf d ↔ TransGen (fun d m => Declares g m d) d m

/-- With the two edge maps in step it is enough to look at one of them. -/
theorem faithful_iff_edge (h : Mirrors g) :
    Faithful g ↔ ∀ d m, Edge g.adjacency d m ↔ Declares g m d := by
  refine ⟨fun hf d m => (hf.1 d m).1, fun he => ⟨fun d m => ⟨he d m, ?_⟩, fun d m => ?_⟩⟩
  · rw [← he, h.mirror]
  · have hrel : Edge g.adjacency = fun d m => Declares g m d := by
      funext d m
      exact propext (he d m)
    rw [dependentsOf, mem_reach, hrel]

/-- A module added again keeps its dependencies, and a module removed is not declared by another
one. -/
def KeepsDeclared (g : ModuleDependencyGraph) : Op → Prop
  | .add node _ => ∀ old, g.nodes.lookup node.moduleId = some old → old.deps ⊆ node.deps
  | .remove moduleId => ∀ m, m ≠ moduleId → ¬ Declares g m moduleId

/-- Exactly these calls keep the edges what they should be. -/
theorem faithful_step_iff (h : Consistent g) (hf : Faithful g) {op : Op} (hret : Returns g op) :
    Faithful (step g op) ↔ KeepsDeclared g op := by
  rw [faithful_iff_edge (consistent_step h op).toMirrors]
  have hedge := (faithful_iff_edge h.toMirrors).1 hf
  cases op with
  | remove id =>
    simp only [step, (edge_removeModule h.toMirrors id _ _).1, declares_removeModule, hedge]
    constructor
    · intro hall m hm hdecl
      exact ((hall id m).2 ⟨hm, hdecl⟩).2.1 rfl
    · intro hkeep d m
      refine ⟨fun hd => ⟨hd.2.2, hd.1⟩, fun hd => ⟨hd.2, ?_, hd.1⟩⟩
      rintro rfl
      exact hkeep m hd.1 hd.2
  | add node installed =>
    have hinsert : step g (.add node installed) = g.insert node := by
      rcases addModule_cases g node installed with ⟨dep, -, -, heq⟩ | ⟨-, heq⟩ | ⟨-, heq⟩
      · simp [Returns, heq] at hret
      · simp [Returns, heq] at hret
      · rw [step, heq]
    rw [hinsert]
    simp only [edge_insert, declares_insert, hedge]
    constructor
    · intro hall old hold d hd
      have hdecl := (hall d node.moduleId).1 (Or.inl ⟨old, hold, hd⟩)
      rwa [if_pos rfl] at hdecl
    · intro hkeep d m
      by_cases hm : m = node.moduleId
      · rw [if_pos hm]
        constructor
        · rintro (⟨old, hold, hd⟩ | ⟨hd, -⟩)
          · exact hkeep old (hm ▸ hold) hd
          · exact hd
        · exact fun hd => Or.inr ⟨hd, hm⟩
      · simp [hm]

theorem faithful_empty : Faithful empty := by
  rw [faithful_iff_edge consistent_empty.toMirrors]
  intro d m
  simp [empty, Declares]

/-- **In every run of calls that return, the edges are the declared dependencies in all its states
exactly when no module is added again with fewer dependencies and none is removed that another one
declares.** -/
theorem faithful_run_iff {ops : List Op} (hret : Along step Returns empty ops) :
    (∀ pre post, ops = pre ++ post → Faithful (run step empty pre)) ↔
      Along step KeepsDeclared empty ops := by
  constructor
  · intro h
    rw [along_iff] at hret ⊢
    intro pre op post hcut
    have hbefore := h pre (op :: post) hcut
    have hafter := h (pre ++ [op]) post (by simp [hcut])
    rw [run_append, run_cons, run_nil] at hafter
    exact (faithful_step_iff (consistent_run pre) hbefore (hret pre op post hcut)).1 hafter
  · rintro hkeep pre post rfl
    have hboth := along_and.2 ⟨(along_append.1 hret).1, (along_append.1 hkeep).1⟩
    refine (run_invariant_of (I := fun g => Consistent g ∧ Faithful g) (fun g op h hop => ?_)
      ⟨consistent_empty, faithful_empty⟩ hboth).2
    exact ⟨consistent_step h.1 op, (faithful_step_iff h.1 h.2 hop.1).2 hop.2⟩

/-- `b` is added again with one more dependency, then removed. -/
theorem faithful_grown :
    Faithful (run step empty [.add nodeA [], .add ⟨[0x62], ∅, []⟩ [], .add (nodeB true) [],
      .remove [0x62]]) := by
  have hret : Along step Returns empty [.add nodeA [], .add ⟨[0x62], ∅, []⟩ [],
      .add (nodeB true) [], .remove [0x62]] := ⟨rfl, rfl, rfl, trivial, trivial⟩
  refine (faithful_run_iff hret).2 ⟨?_, ?_, ?_, ?_, trivial⟩ _ [] (List.append_nil _).symm
  · intro old hold
    cases hold
  · intro old hold
    cases hold
  · intro old hold
    obtain rfl := Option.some.inj hold
    exact List.nil_subset _
  · rintro m hm ⟨node, hnode, hmem⟩
    have hnodes : (run step empty [.add nodeA [], .add ⟨[0x62], ∅, []⟩ [],
        .add (nodeB true) []]).nodes = put (put ∅ [0x61] nodeA) [0x62] (nodeB true) := rfl
    have hlookup : (put (put ∅ [0x61] nodeA) [0x62] (nodeB true)).lookup m = some node :=
      hnodes ▸ hnode
    rw [lookup_put_ne _ _ hm, lookup_put] at hlookup
    by_cases ha : m = [0x61]
    · rw [if_pos ha] at hlookup
      obtain rfl := Option.some.inj hlookup
      cases hmem
    · rw [if_neg ha] at hlookup
      cases hlookup

/-- `b` is added again without its dependency. -/
theorem not_faithful_readded :
    ¬ ∀ ops : List Op, Along step Returns empty ops →
      ∀ pre post, ops = pre ++ post → Faithful (run step empty pre) := by
  intro h
  have hf := h [.add nodeA [], .add (nodeB false) [[0x61]], .add ⟨[0x62], ∅, []⟩ []]
    ⟨rfl, rfl, rfl, trivial⟩ _ [] (List.append_nil _).symm
  obtain ⟨node, hnode, hmem⟩ := (hf.1 [0x61] [0x62]).1.1 (by decide)
  have hlast : (run step empty [.add nodeA [], .add (nodeB false) [[0x61]],
      .add ⟨[0x62], ∅, []⟩ []]).nodes.lookup [0x62] = some ⟨[0x62], ∅, []⟩ := rfl
  obtain rfl := Option.some.inj (hlast.symm.trans hnode)
  cases hmem

end ModuleDependencyGraph

end AstraVeil.Modules
