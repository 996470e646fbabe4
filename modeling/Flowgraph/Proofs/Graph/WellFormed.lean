import Flowgraph.Graph.Topology
import Flowgraph.Proofs.CallGraph
import Mathlib.Data.List.Nodup

/-!
# Well-formed graphs

A graph in which every node stands for a function of its own, and every edge links two different nodes
that no other edge links. What the operations on nodes and edges show and link, and that they keep a
graph well formed.
-/

namespace Flowgraph

/-- What a node is found by. -/
def Node.key (n : Node) : String × String × String := (n.id, n.source.file, n.source.function)

namespace Graph

/-! ## Ids -/

private theorem append_colon_inj {as bs f f' : List Char} (hf : ':' ∉ f) (hf' : ':' ∉ f')
    (h : as ++ ':' :: f = bs ++ ':' :: f') : as = bs ∧ f = f' := by
  -- Were one of the two parts longer, its last colon would stand in the other name.
  rcases List.append_eq_append_iff.mp h with ⟨cs, rfl, hcs⟩ | ⟨cs, rfl, hcs⟩
  · cases cs with
    | nil => simpa using hcs
    | cons c cs =>
      obtain ⟨-, rfl⟩ := List.cons.inj hcs
      simp at hf
  · cases cs with
    | nil => simpa [eq_comm] using hcs
    | cons c cs =>
      obtain ⟨-, rfl⟩ := List.cons.inj hcs
      simp at hf'

/-- Without a colon in the name, an id tells the file and the function. -/
theorem nodeId_inj {file file' function function' : String} (h : IsPlainName function)
    (h' : IsPlainName function') :
    nodeId file function = nodeId file' function' ↔ file = file' ∧ function = function' := by
  constructor
  · intro heq
    have hlist : (file.toList ++ [':']) ++ ':' :: function.toList =
        (file'.toList ++ [':']) ++ ':' :: function'.toList := by
      have := congrArg String.toList heq
      simpa [nodeId, String.toList_append] using this
    obtain ⟨hfile, hfunction⟩ := append_colon_inj h h' hlist
    exact ⟨String.toList_inj.mp (List.append_cancel_right hfile), String.toList_inj.mp hfunction⟩
  · rintro ⟨rfl, rfl⟩
    rfl

theorem nodeId_inj_right {file function function' : String} :
    nodeId file function = nodeId file function' ↔ function = function' := by
  constructor
  · intro heq
    have := congrArg String.toList heq
    simpa [nodeId, String.toList_append, String.toList_inj] using this
  · rintro rfl
    rfl

/-! ## Looking up -/

variable {g h : Graph} {file function id source target : String}

/-- The places of the functions that have a node, in the order of the nodes. -/
def places (g : Graph) : List Location := g.nodes.map (·.source)

/-- Whether a function of a file has a node. -/
def Shows (g : Graph) (file function : String) : Prop :=
  ∃ n ∈ g.nodes, n.source.file = file ∧ n.source.function = function

theorem shows_iff_mem_places :
    g.Shows file function ↔ ∃ line, (⟨file, line, function⟩ : Location) ∈ g.places := by
  simp only [places, List.mem_map]
  constructor
  · rintro ⟨n, hn, rfl, rfl⟩
    exact ⟨n.source.line, n, hn, rfl⟩
  · rintro ⟨line, n, hn, heq⟩
    exact ⟨n, hn, by rw [heq], by rw [heq]⟩

theorem isOf_iff {n : Node} :
    n.isOf file function = true ↔ n.source.file = file ∧ n.source.function = function := by
  simp [Node.isOf]

theorem hasFile_iff : g.hasFile file = true ↔ ∃ function, g.Shows file function := by
  simp only [hasFile, List.any_eq_true, beq_iff_eq, Shows]
  constructor
  · rintro ⟨n, hn, hfile⟩
    exact ⟨_, n, hn, hfile, rfl⟩
  · rintro ⟨function, n, hn, hfile, -⟩
    exact ⟨n, hn, hfile⟩

theorem not_shows_of_not_hasFile (hfile : g.hasFile file = false) : ¬ g.Shows file function :=
  fun hshows => Bool.false_ne_true (hfile.symm.trans (hasFile_iff.mpr ⟨function, hshows⟩))

theorem functionNode?_eq_none :
    g.functionNode? file function = none ↔ ¬ g.Shows file function := by
  simp only [functionNode?, List.find?_eq_none, isOf_iff, Shows, not_exists, not_and]

theorem mem_of_functionNode? {n : Node} (h : g.functionNode? file function = some n) :
    n ∈ g.nodes ∧ n.source.file = file ∧ n.source.function = function := by
  have hof : n.isOf file function = true := List.find?_some (p := (Node.isOf · file function)) h
  exact ⟨List.mem_of_find?_eq_some h, isOf_iff.mp hof⟩

theorem functionNodeId?_eq_none :
    g.functionNodeId? file function = none ↔ ¬ g.Shows file function := by
  rw [functionNodeId?, Option.map_eq_none_iff, functionNode?_eq_none]

theorem containsNode_iff : g.containsNode id = true ↔ ∃ n ∈ g.nodes, n.id = id := by
  simp [containsNode, node?, List.find?_isSome]

theorem mem_nodeIds_of_functionNodeId? (h : g.functionNodeId? file function = some id) :
    id ∈ g.nodeIds := by
  rw [functionNodeId?, Option.map_eq_some_iff] at h
  obtain ⟨n, hfind, rfl⟩ := h
  exact List.mem_map_of_mem (mem_of_functionNode? hfind).1

theorem containsNode_of_functionNodeId? (h : g.functionNodeId? file function = some id) :
    g.containsNode id = true :=
  containsNode_iff.mpr (List.mem_map.mp (mem_nodeIds_of_functionNodeId? h))

/-- Where the nodes of a file have the ids of their functions, a function is found under its id. -/
theorem functionNodeId?_eq_some_of
    (hids : ∀ n ∈ g.nodes, n.source.file = file → n.id = nodeId file n.source.function) :
    g.functionNodeId? file function = some id ↔ g.Shows file function ∧ id = nodeId file function := by
  have hfound {n : Node} (hfind : g.functionNode? file function = some n) :
      g.Shows file function ∧ n.id = nodeId file function := by
    obtain ⟨hn, hfile, hfunction⟩ := mem_of_functionNode? hfind
    exact ⟨⟨n, hn, hfile, hfunction⟩, by rw [hids n hn hfile, hfunction]⟩
  rw [functionNodeId?, Option.map_eq_some_iff]
  constructor
  · rintro ⟨n, hfind, rfl⟩
    exact hfound hfind
  · rintro ⟨hshows, rfl⟩
    cases hfind : g.functionNode? file function with
    | none => exact absurd hshows (functionNode?_eq_none.mp hfind)
    | some n => exact ⟨n, rfl, (hfound hfind).2⟩

theorem joins_iff {e : Edge} :
    e.joins source target = true ↔ e.source = source ∧ e.target = target := by
  simp [Edge.joins]

theorem hasEdge_iff :
    g.hasEdge source target = true ↔ ∃ e ∈ g.edges, e.source = source ∧ e.target = target := by
  simp [hasEdge, Edge.joins]

/-! ## What a lookup depends on -/

section Congr

theorem shows_congr (hplaces : h.nodes.map Node.key = g.nodes.map Node.key) :
    h.Shows file function ↔ g.Shows file function := by
  have hshows (k : Graph) :
      k.Shows file function ↔ ∃ key ∈ k.nodes.map Node.key, key.2 = (file, function) := by
    simp only [Shows, List.mem_map, Node.key, exists_exists_and_eq_and, Prod.mk.injEq]
  rw [hshows, hshows, hplaces]

theorem functionNodeId?_congr_key (hkeys : h.nodes.map Node.key = g.nodes.map Node.key) :
    h.functionNodeId? file function = g.functionNodeId? file function := by
  have hfound (k : Graph) : k.functionNodeId? file function =
      ((k.nodes.map Node.key).find? fun key => key.2.1 == file && key.2.2 == function).map (·.1) := by
    rw [List.find?_map, Option.map_map]
    rfl
  rw [hfound, hfound, hkeys]

theorem functionNodeId?_congr (hnodes : h.nodes = g.nodes) :
    h.functionNodeId? file function = g.functionNodeId? file function :=
  functionNodeId?_congr_key (by rw [hnodes])

theorem nodeIds_congr (hkeys : h.nodes.map Node.key = g.nodes.map Node.key) : h.nodeIds = g.nodeIds := by
  have hids (k : Graph) : k.nodeIds = (k.nodes.map Node.key).map (·.1) := by
    rw [nodeIds, List.map_map]
    rfl
  rw [hids, hids, hkeys]

theorem containsNode_congr (hplaces : h.nodes.map Node.key = g.nodes.map Node.key) :
    h.containsNode id = true ↔ g.containsNode id = true := by
  have hcontains (k : Graph) :
      k.containsNode id = true ↔ ∃ key ∈ k.nodes.map Node.key, key.1 = id := by
    simp only [containsNode_iff, List.mem_map, Node.key, exists_exists_and_eq_and]
  rw [hcontains, hcontains, hplaces]

theorem containsNode_mono (hnodes : g.nodes ⊆ h.nodes) (hid : g.containsNode id = true) :
    h.containsNode id = true := by
  obtain ⟨n, hn, hn'⟩ := containsNode_iff.mp hid
  exact containsNode_iff.mpr ⟨n, hnodes hn, hn'⟩

theorem hasEdge_congr (hedges : h.edges = g.edges) :
    h.hasEdge source target = g.hasEdge source target := by
  rw [hasEdge, hasEdge, hedges]

end Congr

/-! ## Right ids -/

/-- Every node has the id of its function, and no two nodes have the same one. -/
structure IdsRight (g : Graph) : Prop where
  nodup_nodeIds : g.nodeIds.Nodup
  id_eq : ∀ n ∈ g.nodes, n.id = nodeId n.source.file n.source.function
  plain : ∀ n ∈ g.nodes, IsPlainName n.source.function

namespace IdsRight

theorem functionNodeId?_eq_some (hg : g.IdsRight) :
    g.functionNodeId? file function = some id ↔ g.Shows file function ∧ id = nodeId file function :=
  functionNodeId?_eq_some_of fun n hn hfile => hfile ▸ hg.id_eq n hn

theorem containsNode_nodeId (hg : g.IdsRight) (hplain : IsPlainName function) :
    g.containsNode (nodeId file function) = true ↔ g.Shows file function := by
  rw [containsNode_iff]
  constructor
  · rintro ⟨n, hn, hid⟩
    rw [hg.id_eq n hn, nodeId_inj (hg.plain n hn) hplain] at hid
    exact ⟨n, hn, hid.1, hid.2⟩
  · rintro ⟨n, hn, rfl, rfl⟩
    exact ⟨n, hn, hg.id_eq n hn⟩

theorem nodeId_mem_nodeIds (hg : g.IdsRight) (hplain : IsPlainName function) :
    nodeId file function ∈ g.nodeIds ↔ g.Shows file function := by
  rw [← hg.containsNode_nodeId hplain, containsNode_iff, nodeIds, List.mem_map]

/-- What is found under an id is the one node that has it. -/
theorem node?_eq_some (hg : g.IdsRight) {n : Node} : g.node? id = some n ↔ n ∈ g.nodes ∧ n.id = id := by
  constructor
  · intro hfind
    have hid := List.find?_some (p := fun n : Node => n.id == id) hfind
    exact ⟨List.mem_of_find?_eq_some hfind, beq_iff_eq.mp hid⟩
  · rintro ⟨hn, rfl⟩
    cases hfind : g.node? n.id with
    | none => exact absurd (beq_self_eq_true n.id) (List.find?_eq_none.mp hfind n hn)
    | some m =>
      have hid := List.find?_some (p := fun m : Node => m.id == n.id) hfind
      rw [List.inj_on_of_nodup_map hg.nodup_nodeIds (List.mem_of_find?_eq_some hfind) hn
        (beq_iff_eq.mp hid)]

/-- Ids are right or wrong by the keys of the nodes alone. -/
theorem congr (hg : g.IdsRight) (hkeys : h.nodes.map Node.key = g.nodes.map Node.key) :
    h.IdsRight := by
  have hmem : ∀ n ∈ h.nodes, ∃ m ∈ g.nodes, m.key = n.key := fun n hn =>
    List.mem_map.mp (hkeys ▸ List.mem_map_of_mem hn)
  refine ⟨?_, ?_, ?_⟩
  · rw [nodeIds_congr hkeys]
    exact hg.nodup_nodeIds
  · intro n hn
    obtain ⟨m, hm, hkey⟩ := hmem n hn
    simp only [Node.key, Prod.mk.injEq] at hkey
    rw [← hkey.1, ← hkey.2.1, ← hkey.2.2]
    exact hg.id_eq m hm
  · intro n hn
    obtain ⟨m, hm, hkey⟩ := hmem n hn
    simp only [Node.key, Prod.mk.injEq] at hkey
    exact hkey.2.2 ▸ hg.plain m hm

end IdsRight

/-! ## Closedness -/

/-- Whether every edge links two nodes. -/
def Closed (g : Graph) : Prop :=
  ∀ e ∈ g.edges, g.containsNode e.source = true ∧ g.containsNode e.target = true

instance (g : Graph) : Decidable g.Closed :=
  inferInstanceAs (Decidable (∀ e ∈ g.edges, g.containsNode e.source = true ∧ g.containsNode e.target = true))

theorem Closed.congr (hg : g.Closed) (hkeys : h.nodes.map Node.key = g.nodes.map Node.key)
    (hedges : h.edges ⊆ g.edges) : h.Closed := by
  intro e he
  rw [containsNode_congr hkeys, containsNode_congr hkeys]
  exact hg e (hedges he)

/-! ## Well-formedness -/

structure WellFormed (g : Graph) : Prop where
  nodup_nodeIds : g.nodeIds.Nodup
  id_eq : ∀ n ∈ g.nodes, n.id = nodeId n.source.file n.source.function
  plain : ∀ n ∈ g.nodes, IsPlainName n.source.function
  closed : ∀ e ∈ g.edges, g.containsNode e.source = true ∧ g.containsNode e.target = true
  simple : (g.edges.map fun e => (e.source, e.target)).Nodup
  loopless : ∀ e ∈ g.edges, e.source ≠ e.target

theorem wellFormed_empty : empty.WellFormed where
  nodup_nodeIds := List.nodup_nil
  id_eq := by simp [empty]
  plain := by simp [empty]
  closed := by simp [empty]
  simple := List.nodup_nil
  loopless := by simp [empty]

namespace WellFormed

theorem eq_of_id_eq (hg : g.WellFormed) {m n : Node} (hm : m ∈ g.nodes) (hn : n ∈ g.nodes)
    (hid : m.id = n.id) : m = n :=
  List.inj_on_of_nodup_map hg.nodup_nodeIds hm hn hid

theorem plain_of_shows (hg : g.WellFormed) (h : g.Shows file function) : IsPlainName function := by
  obtain ⟨n, hn, -, rfl⟩ := h
  exact hg.plain n hn

theorem idsRight (hg : g.WellFormed) : g.IdsRight := ⟨hg.nodup_nodeIds, hg.id_eq, hg.plain⟩

theorem functionNodeId?_eq_some (hg : g.WellFormed) :
    g.functionNodeId? file function = some id ↔ g.Shows file function ∧ id = nodeId file function :=
  hg.idsRight.functionNodeId?_eq_some

theorem functionNodeId?_of_shows (hg : g.WellFormed) (h : g.Shows file function) :
    g.functionNodeId? file function = some (nodeId file function) :=
  hg.functionNodeId?_eq_some.mpr ⟨h, rfl⟩

theorem containsNode_nodeId (hg : g.WellFormed) (hplain : IsPlainName function) :
    g.containsNode (nodeId file function) = true ↔ g.Shows file function :=
  hg.idsRight.containsNode_nodeId hplain

theorem exists_shows_of_containsNode (hg : g.WellFormed) (h : g.containsNode id = true) :
    ∃ file function, g.Shows file function ∧ id = nodeId file function := by
  obtain ⟨n, hn, rfl⟩ := containsNode_iff.mp h
  exact ⟨_, _, ⟨n, hn, rfl, rfl⟩, hg.id_eq n hn⟩

/-- An edge links two functions that have a node. -/
theorem shows_of_hasEdge (hg : g.WellFormed) {file' function' : String}
    (hplain : IsPlainName function) (hplain' : IsPlainName function')
    (h : g.hasEdge (nodeId file function) (nodeId file' function') = true) :
    g.Shows file function ∧ g.Shows file' function' := by
  obtain ⟨e, he, hsource, htarget⟩ := hasEdge_iff.mp h
  obtain ⟨hs, ht⟩ := hg.closed e he
  rw [hsource] at hs
  rw [htarget] at ht
  exact ⟨(hg.containsNode_nodeId hplain).mp hs, (hg.containsNode_nodeId hplain').mp ht⟩

/-- No edge touches a file that has no nodes. -/
theorem not_hasEdge_of_not_hasFile (hg : g.WellFormed) {path file' function' : String}
    (hfile : g.hasFile path = false) (hplain : IsPlainName function) (hplain' : IsPlainName function')
    (hpath : file = path ∨ file' = path) :
    ¬ g.hasEdge (nodeId file function) (nodeId file' function') = true := by
  intro hedge
  obtain ⟨hs, ht⟩ := hg.shows_of_hasEdge hplain hplain' hedge
  rcases hpath with rfl | rfl
  · exact not_shows_of_not_hasFile hfile hs
  · exact not_shows_of_not_hasFile hfile ht

theorem containsNode_of_hasEdge (hg : g.WellFormed) (h : g.hasEdge source target = true) :
    g.containsNode source = true ∧ g.containsNode target = true := by
  obtain ⟨e, he, rfl, rfl⟩ := hasEdge_iff.mp h
  exact hg.closed e he

/-- A graph with the same ids, places and edges is well formed too. -/
theorem congr (hg : g.WellFormed) (hkeys : h.nodes.map Node.key = g.nodes.map Node.key)
    (hedges : h.edges = g.edges) : h.WellFormed where
  __ := hg.idsRight.congr hkeys
  closed := Closed.congr hg.closed hkeys (hedges ▸ List.Subset.refl _)
  simple := hedges ▸ hg.simple
  loopless := hedges ▸ hg.loopless

end WellFormed

/-! ## Edges -/

@[simp]
theorem nodes_addEdge (g : Graph) (e : Edge) : (g.addEdge e).nodes = g.nodes := by
  rw [addEdge]
  split <;> rfl

theorem edges_addEdge_of_not_hasEdge {e : Edge} (hnew : g.hasEdge e.source e.target = false) :
    (g.addEdge e).edges = g.edges ++ [e] := by
  simp [addEdge, hnew]

theorem mem_edges_addEdge {e d : Edge} (hd : d ∈ (g.addEdge e).edges) : d ∈ g.edges ∨ d = e := by
  rw [addEdge] at hd
  split at hd
  · exact .inl hd
  · simpa using hd

theorem prefix_edges_addEdge (g : Graph) (e : Edge) : g.edges <+: (g.addEdge e).edges := by
  unfold addEdge
  split
  · exact List.prefix_refl _
  · exact List.prefix_append _ _

/-- Only an edge between two nodes that are not linked yet is new. -/
theorem simple_addEdge {e : Edge} (hg : (g.edges.map fun e => (e.source, e.target)).Nodup) :
    ((g.addEdge e).edges.map fun e => (e.source, e.target)).Nodup := by
  by_cases hlinked : g.hasEdge e.source e.target = true
  · simpa [addEdge, hlinked] using hg
  · rw [edges_addEdge_of_not_hasEdge (by simpa using hlinked), List.map_append, List.map_singleton]
    refine hg.append (List.nodup_singleton _) ?_
    simp only [List.disjoint_singleton, List.mem_map, Prod.mk.injEq, not_exists, not_and]
    intro d hd hs ht
    exact hlinked (hasEdge_iff.mpr ⟨d, hd, hs, ht⟩)

section FoldlAddEdge

variable {α : Type} (f : α → Edge) (l : List α) (g : Graph)

theorem nodes_foldl_addEdge : (l.foldl (fun g a => g.addEdge (f a)) g).nodes = g.nodes := by
  induction l generalizing g with
  | nil => rfl
  | cons a l ih => rw [List.foldl_cons, ih, nodes_addEdge]

theorem prefix_edges_foldl_addEdge :
    g.edges <+: (l.foldl (fun g a => g.addEdge (f a)) g).edges := by
  induction l generalizing g with
  | nil => exact List.prefix_refl _
  | cons a l ih => exact (prefix_edges_addEdge g (f a)).trans (ih (g.addEdge (f a)))

end FoldlAddEdge

theorem hasEdge_addEdge {e : Edge} :
    (g.addEdge e).hasEdge source target = true ↔
      g.hasEdge source target = true ∨ (e.source = source ∧ e.target = target) := by
  by_cases hnew : g.hasEdge e.source e.target = true
  · simp only [addEdge, hnew, if_true]
    constructor
    · exact .inl
    · rintro (hedge | ⟨rfl, rfl⟩)
      · exact hedge
      · exact hnew
  · rw [hasEdge_iff, hasEdge_iff, edges_addEdge_of_not_hasEdge (by simpa using hnew)]
    simp [or_and_right, exists_or]

theorem hasEdge_filter {p : Edge → Bool} :
    hasEdge { g with edges := g.edges.filter p } source target = true ↔
      ∃ e ∈ g.edges, p e = true ∧ e.source = source ∧ e.target = target := by
  simp only [hasEdge_iff, List.mem_filter, and_assoc]

theorem hasEdge_removeEdge {source' target' : String} :
    (g.removeEdge source target).hasEdge source' target' = true ↔
      g.hasEdge source' target' = true ∧ ¬ (source' = source ∧ target' = target) := by
  rw [removeEdge, hasEdge_filter, hasEdge_iff]
  constructor
  · rintro ⟨e, he, hp, rfl, rfl⟩
    rw [Bool.not_eq_true', ← Bool.not_eq_true, joins_iff] at hp
    exact ⟨⟨e, he, rfl, rfl⟩, hp⟩
  · rintro ⟨⟨e, he, rfl, rfl⟩, hne⟩
    refine ⟨e, he, ?_, rfl, rfl⟩
    rwa [Bool.not_eq_true', ← Bool.not_eq_true, joins_iff]

namespace WellFormed

/-- A graph with the same nodes is well formed if it links only what has been linked and different
nodes. -/
theorem of_hasEdge (hg : g.WellFormed) (hnodes : h.nodes = g.nodes)
    (hsimple : (h.edges.map fun e => (e.source, e.target)).Nodup)
    (hlinked : ∀ source target, h.hasEdge source target = true → g.hasEdge source target = true ∨
      g.containsNode source = true ∧ g.containsNode target = true ∧ source ≠ target) :
    h.WellFormed := by
  have hkeys : h.nodes.map Node.key = g.nodes.map Node.key := by rw [hnodes]
  have hends : ∀ e ∈ h.edges, g.containsNode e.source = true ∧ g.containsNode e.target = true ∧
      e.source ≠ e.target := by
    intro e he
    rcases hlinked _ _ (hasEdge_iff.mpr ⟨e, he, rfl, rfl⟩) with hold | hnew
    · obtain ⟨d, hd, hs, ht⟩ := hasEdge_iff.mp hold
      rw [← hs, ← ht]
      exact ⟨(hg.closed d hd).1, (hg.closed d hd).2, hg.loopless d hd⟩
    · exact hnew
  refine { hg.idsRight.congr hkeys with closed := ?_, simple := hsimple, loopless := ?_ }
  · intro e he
    rw [containsNode_congr hkeys, containsNode_congr hkeys]
    exact ⟨(hends e he).1, (hends e he).2.1⟩
  · exact fun e he => (hends e he).2.2

theorem filterEdges (hg : g.WellFormed) (p : Edge → Bool) :
    WellFormed { g with edges := g.edges.filter p } where
  nodup_nodeIds := hg.nodup_nodeIds
  id_eq := hg.id_eq
  plain := hg.plain
  closed e he := hg.closed e (List.mem_of_mem_filter he)
  simple := hg.simple.sublist (List.filter_sublist.map _)
  loopless e he := hg.loopless e (List.mem_of_mem_filter he)

theorem removeEdge (hg : g.WellFormed) (source target : String) :
    (g.removeEdge source target).WellFormed :=
  hg.filterEdges _

end WellFormed

end Graph

end Flowgraph
