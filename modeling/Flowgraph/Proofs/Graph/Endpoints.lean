import Flowgraph.Proofs.Graph.Nodes

/-!
# Entry and exit flags

Refreshing the flags of a graph changes nothing else, and makes the flags of every pending node agree
with its edges.
-/

namespace Flowgraph

namespace Graph

variable {g h : Graph} {id source target : String}

/-! ## Entries and exits by edges -/

/-- Only an edge both ends of which are nodes counts, and no loop. -/
theorem isEntry_iff_hasEdge : g.isEntry id = true ↔ ∀ source, g.hasEdge source id = true →
    g.containsNode source = true → g.containsNode id = true → source = id := by
  simp only [isEntry, callersOf, properEdges, List.all_eq_true, List.mem_eraseDups, List.mem_map,
    List.mem_filter, beq_iff_eq, Bool.and_eq_true, hasEdge_iff]
  constructor
  · rintro hall _ ⟨e, he, rfl, rfl⟩ hs ht
    exact hall _ ⟨e, ⟨⟨he, hs, ht⟩, rfl⟩, rfl⟩
  · rintro hall _ ⟨e, ⟨⟨he, hs, ht⟩, rfl⟩, rfl⟩
    exact hall _ ⟨e, he, rfl, rfl⟩ hs ht

theorem isExit_iff_hasEdge : g.isExit id = true ↔ ∀ target, g.hasEdge id target = true →
    g.containsNode id = true → g.containsNode target = true → target = id := by
  simp only [isExit, calleesOf, properEdges, List.all_eq_true, List.mem_eraseDups, List.mem_map,
    List.mem_filter, beq_iff_eq, Bool.and_eq_true, hasEdge_iff]
  constructor
  · rintro hall _ ⟨e, he, rfl, rfl⟩ hs ht
    exact hall _ ⟨e, ⟨⟨he, hs, ht⟩, rfl⟩, rfl⟩
  · rintro hall _ ⟨e, ⟨⟨he, hs, ht⟩, rfl⟩, rfl⟩
    exact hall _ ⟨e, he, rfl, rfl⟩ hs ht

section Congr

variable (hcontains : ∀ id, h.containsNode id = true ↔ g.containsNode id = true)

include hcontains

theorem isEntry_congr (hedges : ∀ source, h.hasEdge source id = g.hasEdge source id) :
    h.isEntry id = g.isEntry id := by
  rw [Bool.eq_iff_iff, isEntry_iff_hasEdge, isEntry_iff_hasEdge]
  simp only [hedges, hcontains]

theorem isExit_congr (hedges : ∀ target, h.hasEdge id target = g.hasEdge id target) :
    h.isExit id = g.isExit id := by
  rw [Bool.eq_iff_iff, isExit_iff_hasEdge, isExit_iff_hasEdge]
  simp only [hedges, hcontains]

end Congr

theorem WellFormed.isEntry_iff (hg : g.WellFormed) :
    g.isEntry id = true ↔ ∀ source, g.hasEdge source id = false := by
  -- A caller that is the node itself would not count, but no edge is a loop.
  rw [isEntry_iff_hasEdge]
  refine forall_congr' fun source => ?_
  rw [← Bool.not_eq_true]
  constructor
  · intro hall hedge
    obtain ⟨hs, ht⟩ := hg.containsNode_of_hasEdge hedge
    obtain ⟨e, he, hsource, htarget⟩ := hasEdge_iff.mp hedge
    exact hg.loopless e he (hsource.trans ((hall hedge hs ht).trans htarget.symm))
  · exact fun hnone hedge => absurd hedge hnone

theorem WellFormed.isExit_iff (hg : g.WellFormed) :
    g.isExit id = true ↔ ∀ target, g.hasEdge id target = false := by
  rw [isExit_iff_hasEdge]
  refine forall_congr' fun target => ?_
  rw [← Bool.not_eq_true]
  constructor
  · intro hall hedge
    obtain ⟨hs, ht⟩ := hg.containsNode_of_hasEdge hedge
    obtain ⟨e, he, hsource, htarget⟩ := hasEdge_iff.mp hedge
    exact hg.loopless e he (hsource.trans ((hall hedge hs ht).symm.trans htarget.symm))
  · exact fun hnone hedge => absurd hedge hnone

theorem WellFormed.isEntry_iff_edges (hg : g.WellFormed) :
    g.isEntry id = true ↔ ¬ ∃ e ∈ g.edges, e.source ≠ id ∧ e.target = id := by
  simp only [hg.isEntry_iff, ← Bool.not_eq_true, hasEdge_iff]
  constructor
  · rintro hnone ⟨e, he, -, htarget⟩
    exact hnone e.source ⟨e, he, rfl, htarget⟩
  · rintro hnone source ⟨e, he, -, rfl⟩
    exact hnone ⟨e, he, hg.loopless e he, rfl⟩

theorem WellFormed.isExit_iff_edges (hg : g.WellFormed) :
    g.isExit id = true ↔ ¬ ∃ e ∈ g.edges, e.source = id ∧ e.target ≠ id := by
  simp only [hg.isExit_iff, ← Bool.not_eq_true, hasEdge_iff]
  constructor
  · rintro hnone ⟨e, he, hsource, -⟩
    exact hnone e.target ⟨e, he, hsource, rfl⟩
  · rintro hnone target ⟨e, he, rfl, -⟩
    exact hnone ⟨e, he, rfl, (hg.loopless e he).symm⟩

/-- Entries are told by the edges that end in a node alone. -/
theorem WellFormed.isEntry_congr (hg : g.WellFormed) (hh : h.WellFormed)
    (hedges : ∀ source, h.hasEdge source id = g.hasEdge source id) : h.isEntry id = g.isEntry id := by
  rw [Bool.eq_iff_iff, hh.isEntry_iff, hg.isEntry_iff]
  simp only [hedges]

theorem WellFormed.isExit_congr (hg : g.WellFormed) (hh : h.WellFormed)
    (hedges : ∀ target, h.hasEdge id target = g.hasEdge id target) : h.isExit id = g.isExit id := by
  rw [Bool.eq_iff_iff, hh.isExit_iff, hg.isExit_iff]
  simp only [hedges]

/-- Edges of another graph do not count for a node that this graph does not have. -/
theorem WellFormed.endpoints_eq_of_apart {k : Graph} (hg : g.WellFormed) (hh : h.WellFormed)
    (hk : k.WellFormed) (hid : h.containsNode id = false)
    (hedges : ∀ source target, k.hasEdge source target = true ↔
      g.hasEdge source target = true ∨ h.hasEdge source target = true) :
    k.isEntry id = g.isEntry id ∧ k.isExit id = g.isExit id := by
  rw [← Bool.not_eq_true] at hid
  constructor
  · refine hg.isEntry_congr hk fun source => ?_
    rw [Bool.eq_iff_iff, hedges, or_iff_left fun hedge => hid (hh.containsNode_of_hasEdge hedge).2]
  · refine hg.isExit_congr hk fun target => ?_
    rw [Bool.eq_iff_iff, hedges, or_iff_left fun hedge => hid (hh.containsNode_of_hasEdge hedge).1]

/-! ## Refreshing -/

theorem updateNode_eq_map (hids : g.nodeIds.Nodup) (id : String) (f : Node → Node) :
    (g.updateNode id f).nodes = g.nodes.map fun n => if n.id = id then f n else n := by
  have huniq : g.nodes.Pairwise fun m n => ¬ ((m.id == id) = true ∧ (n.id == id) = true) :=
    (List.pairwise_map.mp hids).imp fun hne ⟨hm, hn⟩ =>
      hne ((beq_iff_eq.mp hm).trans (beq_iff_eq.mp hn).symm)
  simp only [updateNode, updateFirst_eq_map huniq, beq_iff_eq]

theorem foldl_updateNode {f : String → Node → Node} (hf : ∀ id n, (f id n).id = n.id)
    {ids : List String} (hids : ids.Nodup) (hnodes : g.nodeIds.Nodup) :
    ids.foldl (fun h id => h.updateNode id (f id)) g =
      ⟨g.nodes.map fun n => if n.id ∈ ids then f n.id n else n, g.edges⟩ := by
  -- No id comes twice, so that every node is changed once and by its own id.
  induction ids generalizing g with
  | nil => simp
  | cons id ids ih =>
    obtain ⟨hid, hids⟩ := List.nodup_cons.mp hids
    have hfirst := updateNode_eq_map hnodes id (f id)
    have hnodes' : (g.updateNode id (f id)).nodeIds.Nodup := by
      rw [nodeIds, updateNode, map_updateFirst (hf id)]
      exact hnodes
    rw [List.foldl_cons, ih hids hnodes', hfirst, List.map_map]
    congr 1
    refine List.map_congr_left fun n _ => ?_
    by_cases hn : n.id = id
    · subst hn
      simp [hf, hid]
    · simp [hn]

/-- A node with flags that agree with the edges of a graph, if it is pending. -/
def refreshNode (g : Graph) (n : Node) : Node :=
  if n.pending = true then { n with isEntryPoint := g.isEntry n.id, isExitPoint := g.isExit n.id }
  else n

theorem refreshEndpoints_eq (hids : g.nodeIds.Nodup) :
    g.refreshEndpoints = ⟨g.nodes.map g.refreshNode, g.edges⟩ := by
  have hpending : g.pendingIds.Nodup := hids.sublist (List.filter_sublist.map _)
  rw [refreshEndpoints, foldl_updateNode
    (f := fun id n => { n with isEntryPoint := g.isEntry id, isExitPoint := g.isExit id })
    (fun _ _ => rfl) hpending hids]
  congr 1
  refine List.map_congr_left fun n hn => ?_
  have hmem : n.id ∈ g.pendingIds ↔ n.pending = true := by
    simp only [pendingIds, List.mem_map, List.mem_filter]
    constructor
    · rintro ⟨m, ⟨hm, hp⟩, hid⟩
      rwa [← List.inj_on_of_nodup_map hids hm hn hid]
    · exact fun hp => ⟨n, ⟨hn, hp⟩, rfl⟩
  simp only [hmem, refreshNode]

theorem edges_refreshEndpoints (hids : g.nodeIds.Nodup) : g.refreshEndpoints.edges = g.edges := by
  rw [refreshEndpoints_eq hids]

theorem source_refreshNode (n : Node) : (g.refreshNode n).source = n.source := by
  rw [refreshNode]
  split <;> rfl

theorem id_refreshNode (n : Node) : (g.refreshNode n).id = n.id := by
  rw [refreshNode]
  split <;> rfl

theorem pending_refreshNode (n : Node) : (g.refreshNode n).pending = n.pending := by
  rw [refreshNode]
  split <;> rfl

theorem places_refreshEndpoints (hids : g.nodeIds.Nodup) :
    g.refreshEndpoints.places = g.places := by
  rw [refreshEndpoints_eq hids, places, places, List.map_map]
  exact List.map_congr_left fun n _ => source_refreshNode n

theorem map_key_refreshEndpoints (hids : g.nodeIds.Nodup) :
    g.refreshEndpoints.nodes.map Node.key = g.nodes.map Node.key := by
  rw [refreshEndpoints_eq hids, List.map_map]
  refine List.map_congr_left fun n _ => ?_
  rw [Function.comp_apply, Node.key, Node.key, source_refreshNode, id_refreshNode]

theorem WellFormed.refreshEndpoints (hg : g.WellFormed) : g.refreshEndpoints.WellFormed :=
  hg.congr (map_key_refreshEndpoints hg.nodup_nodeIds) (edges_refreshEndpoints hg.nodup_nodeIds)

/-! ## Right flags -/

/-- The flags of every pending node agree with its edges. -/
def FlagsRight (g : Graph) : Prop :=
  ∀ n ∈ g.nodes, n.pending = true → n.isEntryPoint = g.isEntry n.id ∧ n.isExitPoint = g.isExit n.id

theorem flagsRight_empty : empty.FlagsRight := by
  intro n hn
  cases hn

/-- Flags stay right while nodes are classified or move, as long as the edges stay. -/
theorem FlagsRight.of_edges_eq (hflags : g.FlagsRight)
    (hkeys : h.nodes.map Node.key = g.nodes.map Node.key) (hedges : h.edges = g.edges)
    (hnodes : ∀ n ∈ h.nodes, n.pending = true → ∃ m ∈ g.nodes, ∃ line, n = m.moveTo line) :
    h.FlagsRight := by
  intro n hn hpending
  obtain ⟨m, hm, line, rfl⟩ := hnodes n hn hpending
  have hentry : h.isEntry m.id = g.isEntry m.id :=
    isEntry_congr (fun _ => containsNode_congr hkeys) fun _ => hasEdge_congr hedges
  have hexit : h.isExit m.id = g.isExit m.id :=
    isExit_congr (fun _ => containsNode_congr hkeys) fun _ => hasEdge_congr hedges
  obtain ⟨hentry', hexit'⟩ := hflags m hm hpending
  exact ⟨hentry'.trans hentry.symm, hexit'.trans hexit.symm⟩

theorem SameButLines.flagsRight (hgh : g.SameButLines h) (hflags : g.FlagsRight) : h.FlagsRight := by
  refine hflags.of_edges_eq hgh.map_key_eq hgh.edges_eq fun n hn _ => ?_
  obtain ⟨m, hm, hline⟩ := hgh.exists_node hn
  exact ⟨m, hm, _, hline⟩

theorem flagsRight_refreshEndpoints (hids : g.nodeIds.Nodup) : g.refreshEndpoints.FlagsRight := by
  have hkeys := map_key_refreshEndpoints hids
  have hedges := edges_refreshEndpoints hids
  have hentry (id : String) : g.refreshEndpoints.isEntry id = g.isEntry id :=
    isEntry_congr (fun _ => containsNode_congr hkeys) fun _ => hasEdge_congr hedges
  have hexit (id : String) : g.refreshEndpoints.isExit id = g.isExit id :=
    isExit_congr (fun _ => containsNode_congr hkeys) fun _ => hasEdge_congr hedges
  intro n hn hpending
  rw [hentry, hexit]
  rw [refreshEndpoints_eq hids] at hn
  obtain ⟨m, -, rfl⟩ := List.mem_map.mp hn
  by_cases hm : m.pending = true
  · simp [refreshNode, hm]
  · simp [refreshNode, hm] at hpending

theorem WellFormed.flagsRight_refreshEndpoints (hg : g.WellFormed) :
    g.refreshEndpoints.FlagsRight :=
  Graph.flagsRight_refreshEndpoints hg.nodup_nodeIds

end Graph

end Flowgraph
