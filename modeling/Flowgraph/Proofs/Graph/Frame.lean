import Flowgraph.Proofs.Graph.Altering
import Flowgraph.Proofs.Graph.Ids

/-!
# What a difference leaves alone

Applying a difference to a file moves nodes, and draws and drops edges, within the file alone. Nothing
is asked of the graph but that its ids are distinct.
-/

namespace Flowgraph

open Flowgraph.Graph

/-! ## Nodes that stay -/

/-- `m` is `n` after a difference: on another line at most if the difference puts its function there, and
with other flags at most if it is pending. -/
structure Node.Stays (diff : CallGraphDiff) (new : CallGraph) (path : String) (n m : Node) : Prop where
  id_eq : m.id = n.id
  label_eq : m.label = n.label
  type_eq : m.type = n.type
  description_eq : m.description = n.description
  pending_eq : m.pending = n.pending
  file_eq : m.source.file = n.source.file
  function_eq : m.source.function = n.source.function
  line_eq_or : m.source.line = n.source.line ∨
    n.source.file = path ∧ Update.PutsAt diff new n.source.function m.source.line
  flags_eq : n.pending = false →
    m.isEntryPoint = n.isEntryPoint ∧ m.isExitPoint = n.isExitPoint

namespace Node.Stays

variable {diff : CallGraphDiff} {new : CallGraph} {path : String} {n m k : Node}

theorem refl (n : Node) : n.Stays diff new path n :=
  ⟨rfl, rfl, rfl, rfl, rfl, rfl, rfl, .inl rfl, fun _ => ⟨rfl, rfl⟩⟩

theorem trans (hnm : n.Stays diff new path m) (hmk : m.Stays diff new path k) :
    n.Stays diff new path k where
  id_eq := hmk.id_eq.trans hnm.id_eq
  label_eq := hmk.label_eq.trans hnm.label_eq
  type_eq := hmk.type_eq.trans hnm.type_eq
  description_eq := hmk.description_eq.trans hnm.description_eq
  pending_eq := hmk.pending_eq.trans hnm.pending_eq
  file_eq := hmk.file_eq.trans hnm.file_eq
  function_eq := hmk.function_eq.trans hnm.function_eq
  line_eq_or := by
    have hputs := hmk.line_eq_or
    rw [hnm.file_eq, hnm.function_eq] at hputs
    rcases hputs with hline | hputs
    · rw [hline]
      exact hnm.line_eq_or
    · exact .inr hputs
  flags_eq hclassified := by
    obtain ⟨hentry, hexit⟩ := hnm.flags_eq hclassified
    obtain ⟨hentry', hexit'⟩ := hmk.flags_eq (hnm.pending_eq.trans hclassified)
    exact ⟨hentry'.trans hentry, hexit'.trans hexit⟩

theorem moveTo {line : Nat} (hfile : n.source.file = path)
    (hline : Update.PutsAt diff new n.source.function line) :
    n.Stays diff new path (n.moveTo line) :=
  ⟨rfl, rfl, rfl, rfl, rfl, rfl, rfl, .inr ⟨hfile, hline⟩, fun _ => ⟨rfl, rfl⟩⟩

theorem refreshNode (g : Graph) (n : Node) : n.Stays diff new path (g.refreshNode n) := by
  unfold Graph.refreshNode
  split
  next hpending =>
    refine ⟨rfl, rfl, rfl, rfl, rfl, rfl, rfl, .inl rfl, fun hclassified => ?_⟩
    rw [hpending] at hclassified
    cases hclassified
  next => exact .refl n

theorem isFresh (hnm : n.Stays diff new path m) (hn : n.IsFresh) : m.IsFresh where
  label_eq := by rw [hnm.label_eq, hnm.function_eq, hn.label_eq]
  type_eq := hnm.type_eq.trans hn.type_eq
  pending_eq := hnm.pending_eq.trans hn.pending_eq
  description_eq := hnm.description_eq.trans hn.description_eq

/-- A difference puts no node elsewhere than the new call graph has its function. -/
theorem onLine (hnm : n.Stays diff new path m) (hn : n.OnLine new) : m.OnLine new := by
  unfold OnLine
  rw [hnm.function_eq]
  rcases hnm.line_eq_or with hline | ⟨-, -, hputs⟩
  · rw [hline]
    exact hn
  · exact hputs

end Node.Stays

/-- `n` is a node that a difference brings: that of an added function, on its line. -/
structure Node.Comes (diff : CallGraphDiff) (new : CallGraph) (path : String) (n : Node) : Prop where
  isFresh : n.IsFresh
  file_eq : n.source.file = path
  added : n.source.function ∈ diff.addedFunctions
  onLine : n.OnLine new

namespace Node

variable {diff : CallGraphDiff} {new : CallGraph} {path : String} {n m : Node}

theorem Comes.stays (hn : n.Comes diff new path) (hnm : n.Stays diff new path m) :
    m.Comes diff new path where
  isFresh := hnm.isFresh hn.isFresh
  file_eq := hnm.file_eq.trans hn.file_eq
  added := hnm.function_eq ▸ hn.added
  onLine := hnm.onLine hn.onLine

theorem Comes.ofFunction {f : FunctionInfo} (id : String) (hname : f.name ∈ diff.addedFunctions)
    (hf : new.get? f.name = some f) : (Node.ofFunction id path f).Comes diff new path :=
  ⟨⟨rfl, rfl, rfl, rfl⟩, rfl, hname, f, hf, rfl⟩

end Node

namespace Graph

variable {g : Graph} {diff : CallGraphDiff} {new : CallGraph} {path file name id : String} {u v : Update}

/-- The ids of the nodes of a file. -/
def fileIds (g : Graph) (file : String) : List String := (g.fileNodes file).map (·.id)

theorem mem_fileIds : id ∈ g.fileIds file ↔ ∃ n ∈ g.nodes, n.source.file = file ∧ n.id = id := by
  simp only [fileIds, fileNodes, List.mem_map, List.mem_filter, beq_iff_eq, and_assoc]

theorem mem_fileIds_of_functionNodeId? (h : g.functionNodeId? file name = some id) :
    id ∈ g.fileIds file := by
  rw [functionNodeId?, Option.map_eq_some_iff] at h
  obtain ⟨n, hfind, rfl⟩ := h
  obtain ⟨hn, hfile, -⟩ := mem_of_functionNode? hfind
  exact mem_fileIds.mpr ⟨n, hn, hfile, rfl⟩

theorem fileIds_congr {h : Graph} (hkeys : h.nodes.map Node.key = g.nodes.map Node.key) :
    h.fileIds file = g.fileIds file := by
  have hids (k : Graph) :
      k.fileIds file = ((k.nodes.map Node.key).filter (·.2.1 == file)).map (·.1) := by
    rw [List.filter_map, List.map_map]
    rfl
  rw [hids, hids, hkeys]

namespace Update

/-! ## One change -/

/-- Whether an edge is none of a difference's business: it touches no node that has gone, and does not
join two nodes of the file. -/
def isOutside (u : Update) (path : String) (e : Edge) : Bool :=
  !u.patch.nodesRemoved.contains e.source && !u.patch.nodesRemoved.contains e.target &&
    !((u.graph.fileIds path).contains e.source && (u.graph.fileIds path).contains e.target)

theorem isOutside_iff {e : Edge} : u.isOutside path e = true ↔
    e.source ∉ u.patch.nodesRemoved ∧ e.target ∉ u.patch.nodesRemoved ∧
      ¬ (e.source ∈ u.graph.fileIds path ∧ e.target ∈ u.graph.fileIds path) := by
  simp only [isOutside, Bool.and_eq_true, Bool.not_eq_true', ← Bool.not_eq_true, List.contains_iff_mem,
    and_assoc]

namespace Alters

theorem nodup_nodeIds (h : Alters diff new path u v) (hids : u.graph.nodeIds.Nodup) :
    v.graph.nodeIds.Nodup := by
  cases h with
  | drop name id => exact hids.sublist (List.filter_sublist.map _)
  | add f =>
    exact nodup_nodeIds_addNode.mpr
      ⟨u.graph.allocateId_not_mem_nodeIds path f.name f.startLine, hids⟩
  | move => exact (nodeIds_congr map_key_moveFunction).symm ▸ hids
  | note => exact hids
  | unlink => exact hids
  | link => rwa [graph_link, nodeIds, nodes_addEdge]

theorem nodesRemoved_subset (h : Alters diff new path u v) :
    u.patch.nodesRemoved ⊆ v.patch.nodesRemoved := by
  cases h with
  | drop => exact List.subset_append_left _ _
  | link =>
    unfold Update.link
    split <;> exact List.Subset.refl _
  | add | move | note | unlink => exact List.Subset.refl _

/-- A node stays, or goes as that of a removed function with all edges that touch it. -/
theorem stays_or_gone (h : Alters diff new path u v) {n : Node} (hn : n ∈ u.graph.nodes) :
    (∃ m ∈ v.graph.nodes, n.Stays diff new path m) ∨
      (∃ name ∈ diff.removedFunctions, u.graph.functionNodeId? path name = some n.id) ∧
        n.id ∈ v.patch.nodesRemoved ∧ ∀ e ∈ v.graph.edges, e.touches n.id = false := by
  cases h with
  | drop name id hname hnone hfound =>
    by_cases hid : n.id = id
    · refine .inr ⟨⟨name, hname, hid ▸ hfound⟩,
        List.mem_append_right _ (List.mem_singleton.mpr hid), fun e he => ?_⟩
      simpa [hid] using (List.mem_filter.mp he).2
    · exact .inl ⟨n, List.mem_filter.mpr ⟨hn, by simpa using hid⟩, .refl n⟩
  | add f => exact .inl ⟨n, List.mem_append_left _ hn, .refl n⟩
  | move name id line hid hline =>
    -- Of several nodes of one function, the first moves and the others stay.
    rcases mem_updateFirst (p := (·.isOf path name)) (f := (·.moveTo line)) hn with hsame | ⟨hof, hmoved⟩
    · exact .inl ⟨n, hsame, .refl n⟩
    · obtain ⟨hfile, rfl⟩ := isOf_iff.mp hof
      exact .inl ⟨n.moveTo line, hmoved, .moveTo hfile hline⟩
  | note => exact .inl ⟨n, hn, .refl n⟩
  | unlink => exact .inl ⟨n, hn, .refl n⟩
  | link =>
    refine .inl ⟨n, ?_, .refl n⟩
    rwa [graph_link, nodes_addEdge]

/-- A node has been there before, or is the one that comes. -/
theorem stayed_or_comes (h : Alters diff new path u v) {m : Node} (hm : m ∈ v.graph.nodes) :
    (∃ n ∈ u.graph.nodes, n.Stays diff new path m) ∨
      m.id ∈ v.patch.nodesAdded ∧ m.Comes diff new path := by
  cases h with
  | drop => exact .inl ⟨m, List.mem_of_mem_filter hm, .refl m⟩
  | add f hname hf =>
    rcases List.mem_append.mp hm with hold | hnew
    · exact .inl ⟨m, hold, .refl m⟩
    · obtain rfl := List.mem_singleton.mp hnew
      exact .inr ⟨List.mem_append_right _ (List.mem_singleton_self _), .ofFunction _ hname hf⟩
  | move name id line hid hline =>
    obtain ⟨n, hn, rfl | ⟨hof, rfl⟩⟩ := of_mem_updateFirst hm
    · exact .inl ⟨_, hn, .refl _⟩
    · obtain ⟨hfile, rfl⟩ := isOf_iff.mp hof
      exact .inl ⟨n, hn, .moveTo hfile hline⟩
  | note => exact .inl ⟨m, hm, .refl m⟩
  | unlink => exact .inl ⟨m, hm, .refl m⟩
  | link =>
    rw [graph_link, nodes_addEdge] at hm
    exact .inl ⟨m, hm, .refl m⟩

theorem nodesAdded_subset (h : Alters diff new path u v) : u.patch.nodesAdded ⊆ v.patch.nodesAdded := by
  cases h with
  | add => exact List.subset_append_left _ _
  | link =>
    unfold Update.link
    split <;> exact List.Subset.refl _
  | drop | move | note | unlink => exact List.Subset.refl _

/-- What goes is the node of a removed function. Nothing has come then. -/
theorem gone_or_goes (h : Alters diff new path u v) (hid : id ∈ v.patch.nodesRemoved) :
    id ∈ u.patch.nodesRemoved ∨ u.patch.nodesAdded = [] ∧ ∃ n ∈ u.graph.nodes, n.id = id ∧
      n.source.file = path ∧ n.source.function ∈ diff.removedFunctions := by
  cases h with
  | drop name id' hname hnone hfound =>
    rcases List.mem_append.mp hid with hold | hnew
    · exact .inl hold
    · obtain rfl := List.mem_singleton.mp hnew
      rw [functionNodeId?, Option.map_eq_some_iff] at hfound
      obtain ⟨n, hfind, rfl⟩ := hfound
      obtain ⟨hn, hfile, rfl⟩ := mem_of_functionNode? hfind
      exact .inr ⟨hnone, n, hn, rfl, hfile, hname⟩
  | link =>
    unfold Update.link at hid
    split at hid <;> exact .inl hid
  | add | move | note | unlink => exact .inl hid

theorem mem_fileIds_or_gone (h : Alters diff new path u v) (hid : id ∈ u.graph.fileIds file) :
    id ∈ v.graph.fileIds file ∨
      id ∈ v.patch.nodesRemoved ∧ ∀ e ∈ v.graph.edges, e.touches id = false := by
  obtain ⟨n, hn, rfl, rfl⟩ := mem_fileIds.mp hid
  refine (h.stays_or_gone hn).imp ?_ And.right
  rintro ⟨m, hm, hstays⟩
  exact mem_fileIds.mpr ⟨m, hm, hstays.file_eq, hstays.id_eq⟩

/-- An edge that is outside after a change has been outside before. -/
theorem isOutside_mono (h : Alters diff new path u v) {e : Edge} (he : v.isOutside path e = true) :
    u.isOutside path e = true := by
  obtain ⟨hsource, htarget, hjoins⟩ := isOutside_iff.mp he
  refine isOutside_iff.mpr ⟨mt (h.nodesRemoved_subset ·) hsource, mt (h.nodesRemoved_subset ·) htarget,
    fun ⟨hs, ht⟩ => hjoins ⟨?_, ?_⟩⟩
  · exact (h.mem_fileIds_or_gone hs).resolve_right fun hgone => hsource hgone.1
  · exact (h.mem_fileIds_or_gone ht).resolve_right fun hgone => htarget hgone.1

/-- Edges come within the file, and derived from calls. -/
theorem mem_edges (h : Alters diff new path u v) {e : Edge} (he : e ∈ v.graph.edges) :
    e ∈ u.graph.edges ∨ e = .unresolved e.source e.target ∧
      e.source ∈ v.graph.fileIds path ∧ e.target ∈ v.graph.fileIds path := by
  cases h with
  | drop => exact .inl (List.mem_of_mem_filter he)
  | unlink => exact .inl (List.mem_of_mem_filter he)
  | link caller callee source target hcall hne hs ht =>
    rw [graph_link] at he
    refine (mem_edges_addEdge he).imp_right ?_
    rintro rfl
    rw [graph_link, fileIds, fileNodes, nodes_addEdge]
    exact ⟨rfl, mem_fileIds_of_functionNodeId? hs, mem_fileIds_of_functionNodeId? ht⟩
  | add | move | note => exact .inl he

/-- No edge outside comes or goes. -/
theorem filter_isOutside (h : Alters diff new path u v) :
    v.graph.edges.filter (v.isOutside path) = u.graph.edges.filter (v.isOutside path) := by
  -- What a change keeps of the edges includes all that are outside after it.
  have hfilter {keep : Edge → Bool} (hedges : v.graph.edges = u.graph.edges.filter keep)
      (hkeep : ∀ e, v.isOutside path e = true → keep e = true) :
      v.graph.edges.filter (v.isOutside path) = u.graph.edges.filter (v.isOutside path) := by
    rw [hedges, List.filter_filter]
    refine List.filter_congr fun e _ => ?_
    by_cases he : v.isOutside path e = true
    · simp [he, hkeep e he]
    · simp [he]
  cases h with
  | drop name id =>
    refine hfilter rfl fun e he => ?_
    obtain ⟨hsource, htarget, -⟩ := isOutside_iff.mp he
    simp only [List.mem_append, List.mem_singleton, not_or] at hsource htarget
    simp [Edge.touches, hsource.2, htarget.2]
  | unlink caller callee source target hcall hs ht =>
    refine hfilter rfl fun e he => ?_
    rw [Bool.not_eq_true', ← Bool.not_eq_true, joins_iff]
    rintro ⟨rfl, rfl⟩
    exact (isOutside_iff.mp he).2.2
      ⟨mem_fileIds_of_functionNodeId? hs, mem_fileIds_of_functionNodeId? ht⟩
  | link caller callee source target hcall hne hs ht =>
    have hnot : (u.link source target).isOutside path (.unresolved source target) = false := by
      rw [← Bool.not_eq_true, isOutside_iff, graph_link, fileIds, fileNodes, nodes_addEdge]
      rintro ⟨-, -, hjoins⟩
      exact hjoins ⟨mem_fileIds_of_functionNodeId? hs, mem_fileIds_of_functionNodeId? ht⟩
    by_cases hlinked : u.graph.hasEdge source target = true
    · simp [Update.link, hlinked]
    · have hnew : u.graph.hasEdge source target = false := by simpa using hlinked
      rw [graph_link, edges_addEdge_of_not_hasEdge (e := .unresolved source target) hnew,
        List.filter_append]
      simp [hnot]
  | add | move | note => rfl

end Alters

/-! ## All changes -/

/-- `u` is `g` after changes that a difference of a file makes, with nothing else changed. -/
structure Frames (g : Graph) (diff : CallGraphDiff) (new : CallGraph) (path : String) (u : Update) :
    Prop where
  nodup_nodeIds : u.graph.nodeIds.Nodup
  gone : ∀ id ∈ u.patch.nodesRemoved, ∃ n ∈ g.nodes, n.id = id ∧ n.source.file = path ∧
    n.source.function ∈ diff.removedFunctions
  stays : ∀ n ∈ g.nodes, n.id ∉ u.patch.nodesRemoved → ∃ m ∈ u.graph.nodes, n.Stays diff new path m
  stayed_or_comes : ∀ m ∈ u.graph.nodes, (∃ n ∈ g.nodes, n.Stays diff new path m) ∨
    m.id ∈ u.patch.nodesAdded ∧ m.Comes diff new path
  filter_isOutside : u.graph.edges.filter (u.isOutside path) = g.edges.filter (u.isOutside path)
  mem_edges : ∀ e ∈ u.graph.edges, e ∈ g.edges ∨ e = .unresolved e.source e.target ∧
    e.source ∈ u.graph.fileIds path ∧ e.target ∈ u.graph.fileIds path

namespace Frames

theorem start (hids : g.nodeIds.Nodup) : Frames g diff new path ⟨g, .empty⟩ :=
  ⟨hids, fun _ hid => absurd hid List.not_mem_nil, fun n hn _ => ⟨n, hn, .refl n⟩,
    fun m hm => .inl ⟨m, hm, .refl m⟩, rfl, fun _ he => .inl he⟩

theorem alters (hu : u.Frames g diff new path) (h : Alters diff new path u v) :
    v.Frames g diff new path where
  nodup_nodeIds := h.nodup_nodeIds hu.nodup_nodeIds
  gone id hid := by
    rcases h.gone_or_goes hid with hgone | ⟨hnone, m, hm, rfl, hfile, hfunction⟩
    · exact hu.gone id hgone
    · rcases hu.stayed_or_comes m hm with ⟨n, hn, hnm⟩ | ⟨hcame, -⟩
      · exact ⟨n, hn, hnm.id_eq.symm, hnm.file_eq ▸ hfile, hnm.function_eq ▸ hfunction⟩
      · rw [hnone] at hcame
        cases hcame
  stayed_or_comes k hk := by
    rcases h.stayed_or_comes hk with ⟨m, hm, hmk⟩ | hcomes
    · rcases hu.stayed_or_comes m hm with ⟨n, hn, hnm⟩ | ⟨hcame, hcomes⟩
      · exact .inl ⟨n, hn, hnm.trans hmk⟩
      · exact .inr ⟨hmk.id_eq ▸ h.nodesAdded_subset hcame, hcomes.stays hmk⟩
    · exact .inr hcomes
  stays n hn hid := by
    obtain ⟨m, hm, hnm⟩ := hu.stays n hn fun hgone => hid (h.nodesRemoved_subset hgone)
    rcases h.stays_or_gone hm with ⟨k, hk, hmk⟩ | ⟨-, hgone, -⟩
    · exact ⟨k, hk, hnm.trans hmk⟩
    · exact absurd (hnm.id_eq ▸ hgone) hid
  filter_isOutside := by
    have hboth (l : List Edge) :
        (l.filter (u.isOutside path)).filter (v.isOutside path) = l.filter (v.isOutside path) := by
      rw [List.filter_filter]
      refine List.filter_congr fun e _ => ?_
      by_cases he : v.isOutside path e = true
      · simp [he, h.isOutside_mono he]
      · simp [he]
    calc v.graph.edges.filter (v.isOutside path)
        = u.graph.edges.filter (v.isOutside path) := h.filter_isOutside
      _ = (u.graph.edges.filter (u.isOutside path)).filter (v.isOutside path) := (hboth _).symm
      _ = (g.edges.filter (u.isOutside path)).filter (v.isOutside path) := by rw [hu.filter_isOutside]
      _ = g.edges.filter (v.isOutside path) := hboth _
  mem_edges e he := by
    rcases h.mem_edges he with hold | hnew
    · refine (hu.mem_edges e hold).imp_right fun ⟨hunresolved, hs, ht⟩ => ⟨hunresolved, ?_, ?_⟩
      -- An end that goes takes the edge with it.
      · refine (h.mem_fileIds_or_gone hs).resolve_right fun hgone => ?_
        simpa [Edge.touches] using hgone.2 e he
      · refine (h.mem_fileIds_or_gone ht).resolve_right fun hgone => ?_
        simpa [Edge.touches] using hgone.2 e he
    · exact .inr hnew

theorem finish (hu : u.Frames g diff new path) : u.finish.Frames g diff new path := by
  unfold Update.finish
  split
  next => exact hu
  next =>
    have hkeys := map_key_refreshEndpoints hu.nodup_nodeIds
    have hedges := edges_refreshEndpoints hu.nodup_nodeIds
    have hids : u.graph.refreshEndpoints.fileIds path = u.graph.fileIds path := fileIds_congr hkeys
    have hnodes := refreshEndpoints_eq hu.nodup_nodeIds
    refine ⟨nodeIds_congr hkeys ▸ hu.nodup_nodeIds, hu.gone, fun n hn hid => ?_, fun m hm => ?_, ?_,
      fun e he => ?_⟩
    · obtain ⟨m, hm, hstays⟩ := hu.stays n hn hid
      refine ⟨u.graph.refreshNode m, ?_, hstays.trans (.refreshNode u.graph m)⟩
      rw [hnodes]
      exact List.mem_map_of_mem hm
    · rw [hnodes] at hm
      obtain ⟨n, hn, rfl⟩ := List.mem_map.mp hm
      have hfresh : n.Stays diff new path (u.graph.refreshNode n) := .refreshNode u.graph n
      rcases hu.stayed_or_comes n hn with ⟨k, hk, hkn⟩ | ⟨hcame, hcomes⟩
      · exact .inl ⟨k, hk, hkn.trans hfresh⟩
      · exact .inr ⟨hfresh.id_eq ▸ hcame, hcomes.stays hfresh⟩
    · have houtside : isOutside { u with graph := u.graph.refreshEndpoints } path = u.isOutside path := by
        funext e
        simp only [isOutside, hids]
      rw [houtside, hedges]
      exact hu.filter_isOutside
    · rw [hids]
      exact hu.mem_edges e (hedges ▸ he)

/-- A node that stays is one of the file just if it has been one before. -/
theorem mem_fileIds_iff (hu : u.Frames g diff new path) (hid : id ∈ g.nodeIds)
    (hstays : id ∉ u.patch.nodesRemoved) : id ∈ u.graph.fileIds file ↔ id ∈ g.fileIds file := by
  constructor
  · intro hmem
    obtain ⟨n, hn, rfl⟩ := List.mem_map.mp hid
    obtain ⟨m, hm, hnm⟩ := hu.stays n hn hstays
    obtain ⟨k, hk, rfl, hid⟩ := mem_fileIds.mp hmem
    obtain rfl := List.inj_on_of_nodup_map hu.nodup_nodeIds hk hm (hid.trans hnm.id_eq.symm)
    exact mem_fileIds.mpr ⟨n, hn, hnm.file_eq.symm, rfl⟩
  · intro hmem
    obtain ⟨n, hn, rfl, rfl⟩ := mem_fileIds.mp hmem
    obtain ⟨m, hm, hnm⟩ := hu.stays n hn hstays
    exact mem_fileIds.mpr ⟨m, hm, hnm.file_eq, hnm.id_eq⟩

end Frames

theorem Becomes.frames (hids : g.nodeIds.Nodup) (h : Becomes diff new path ⟨g, .empty⟩ v) :
    v.Frames g diff new path := by
  induction h with
  | refl => exact .start hids
  | tail _ halters ih => exact ih.alters halters

end Update

/-! ## Whole differences -/

/-- Applies a difference to a graph in place. The graph is left alone until all steps have succeeded. -/
def patchInPlace (diff : CallGraphDiff) (new : CallGraph) (path : String) :
    ExceptT UpdateError (StateM Graph) Patch := do
  match (← get).applyDiff diff new path with
  | .ok u =>
    set u.graph
    return u.patch
  | .error e => throw e

theorem run_patchInPlace (g : Graph) (diff : CallGraphDiff) (new : CallGraph) (path : String) :
    (patchInPlace diff new path).run.run g =
      match g.applyDiff diff new path with
      | .ok u => (.ok u.patch, u.graph)
      | .error e => (.error e, g) := by
  have hread : (patchInPlace diff new path).run.run g = (ExceptT.run (match g.applyDiff diff new path with
      | .ok u => do
        set u.graph
        return u.patch
      | .error e => throw e : ExceptT UpdateError (StateM Graph) Patch)).run g := rfl
  rw [hread]
  cases g.applyDiff diff new path <;> rfl

theorem frames_of_applyDiff (hids : g.nodeIds.Nodup) (h : g.applyDiff diff new path = .ok u) :
    u.Frames g diff new path := by
  obtain ⟨v, hv, rfl⟩ := exists_becomes_of_applyDiff h
  exact (Update.Becomes.frames hids hv).finish

/-- Where ids are distinct, a difference of a file is applied, with the nodes that stay as they were but
for the lines of functions that it puts elsewhere and the flags of pending nodes, and with all edges as
they were but for those that touch a node that goes and those within the file; or the graph is left
alone, because the new call graph does not have a function that the difference adds or modifies. Whether
an edge is within the file is told by the nodes that are there afterwards. Of a node that stays, it is
told as before. -/
theorem frames_patchInPlace (hids : g.nodeIds.Nodup) (diff : CallGraphDiff) (new : CallGraph)
    (path : String) :
    (∃ u : Update, (patchInPlace diff new path).run.run g = (.ok u.patch, u.graph) ∧
      u.Frames g diff new path ∧
      ∀ file, ∀ id ∈ g.nodeIds, id ∉ u.patch.nodesRemoved →
        (id ∈ u.graph.fileIds file ↔ id ∈ g.fileIds file)) ∨
    (∃ name, (patchInPlace diff new path).run.run g = (.error (.inconsistentDiff path name), g) ∧
      (name ∈ diff.addedFunctions ∨ name ∈ diff.modifiedFunctions) ∧ new.contains name = false) := by
  cases happly : g.applyDiff diff new path with
  | ok u =>
    have hu := frames_of_applyDiff hids happly
    refine .inl ⟨u, ?_, hu, fun file id hid hstays => hu.mem_fileIds_iff hid hstays⟩
    rw [run_patchInPlace, happly]
  | error e =>
    obtain ⟨name, hname, hmissing, rfl⟩ := exists_of_applyDiff_eq_error happly
    refine .inr ⟨name, ?_, hname, hmissing⟩
    rw [run_patchInPlace, happly]

set_option maxRecDepth 10000 in
/-- A function goes and one comes, while another that has been classified moves. The edge that leads into
the file from outside stays, and the one to the function that goes does not. -/
theorem frames_patchInPlace_of_called_file :
    let g : Graph := ⟨[.ofFunction "a.py::f" "a.py" ⟨"f", 1, 2, []⟩,
        ⟨"a.py::g", "Ask", "llm", ⟨"a.py", 4, "g"⟩, true, false, false, none⟩,
        .ofFunction "b.py::h" "b.py" ⟨"h", 1, 2, []⟩],
      [⟨"b.py::h", "a.py::g", "asks", none, none, none⟩, .unresolved "a.py::g" "a.py::f"]⟩
    let before := CallGraph.ofList [⟨"f", 1, 2, []⟩, ⟨"g", 4, 5, ["f"]⟩]
    let after := CallGraph.ofList [⟨"g", 1, 2, ["k"]⟩, ⟨"k", 4, 5, []⟩]
    g.nodeIds.Nodup ∧
      ∃ u : Update, (patchInPlace (before.diff after) after "a.py").run.run g = (.ok u.patch, u.graph) ∧
        u.graph.nodes.map (fun n => (n.id, n.label, n.source.line)) =
          [("a.py::g", "Ask", 1), ("b.py::h", "h", 1), ("a.py::k", "k", 4)] ∧
        u.graph.edges = [⟨"b.py::h", "a.py::g", "asks", none, none, none⟩,
          .unresolved "a.py::g" "a.py::k"] ∧
        u.Frames g (before.diff after) after "a.py" := by
  intro g before after
  have hids : g.nodeIds.Nodup := by decide
  refine ⟨hids, ?_⟩
  rcases frames_patchInPlace hids (before.diff after) after "a.py" with
    ⟨u, hrun, hframes, -⟩ | ⟨name, -, hname, hmissing⟩
  · have hgraph : ((patchInPlace (before.diff after) after "a.py").run.run g).2 = u.graph :=
      congrArg Prod.snd hrun
    refine ⟨u, hrun, ?_, ?_, hframes⟩
    · rw [← hgraph]
      decide +kernel
    · rw [← hgraph]
      decide +kernel
  · exfalso
    rcases hname with hadded | hmodified
    · rw [(CallGraph.mem_addedFunctions.mp hadded).1] at hmissing
      cases hmissing
    · rw [(CallGraph.contains_of_mem_modifiedFunctions hmodified).2] at hmissing
      cases hmissing

end Graph

end Flowgraph
