import Flowgraph.Proofs.Graph.FileGraph

/-!
# Ids after merging

The graph of a file is made apart from the graph that it is merged into, and takes no account of the ids
that are given there. Its functions all come with the plain ids of their names. An analysis may have
given one of these to a node of another file, and then two nodes share it.
-/

namespace Flowgraph

namespace Graph

variable {g : Graph} {path : String} {calls : CallGraph}

/-! ## The two parts -/

/-- The ids of the nodes of all files but one. -/
def otherIds (g : Graph) (path : String) : List String :=
  (g.nodes.filter (·.source.file != path)).map (·.id)

/-- Where no id is shared, removing a file takes the nodes of the file and no other. -/
theorem nodes_removeFile (hids : g.nodeIds.Nodup) (path : String) :
    (g.removeFile path).nodes = g.nodes.filter (·.source.file != path) := by
  rw [removeFile, foldl_removeNode]
  refine List.filter_congr fun n hn => ?_
  have hown : n.id ∈ (g.fileNodes path).map (·.id) ↔ n.source.file = path := by
    constructor
    · intro hmem
      obtain ⟨m, hm, hid⟩ := List.mem_map.mp hmem
      obtain ⟨hm, hfile⟩ := List.mem_filter.mp hm
      rw [List.inj_on_of_nodup_map hids hm hn hid] at hfile
      exact beq_iff_eq.mp hfile
    · intro hfile
      exact List.mem_map_of_mem (List.mem_filter.mpr ⟨hn, beq_iff_eq.mpr hfile⟩)
  rw [Bool.eq_iff_iff, Bool.not_eq_true', ← Bool.not_eq_true, List.contains_iff_mem, hown, bne_iff_ne]

/-- Alone in its graph, every function of a file has the plain id of its name. -/
theorem nodeIds_ofCallGraph (calls : CallGraph) (path : String) :
    (ofCallGraph calls path).nodeIds = calls.names.map (nodeId path) := by
  obtain ⟨linked, heq, hextends⟩ := exists_extends_ofCallGraph calls path
  have hkeys : linked.nodes.map Node.key = (unlinked calls path).nodes.map Node.key := by
    rw [hextends.nodes_eq]
  have hunlinked : (unlinked calls path).nodeIds = calls.names.map (nodeId path) := by
    rw [← calls.map_name_toList]
    simp [unlinked, nodeIds, fileNode, Node.ofFunction]
  have hlinked : linked.nodeIds.Nodup := by
    rw [nodeIds_congr hkeys]
    exact (ofFile_unlinked calls path).nodup_nodeIds
  rw [heq, nodeIds_congr (map_key_refreshEndpoints hlinked), nodeIds_congr hkeys, hunlinked]

/-! ## Merging -/

/-- After a merge, the nodes of the other files have the ids they had, and the functions of the file the
plain ids of their names. No two nodes share an id if and only if none of the plain ids belongs to a node
of another file: none is ever replaced by one with a suffix. -/
theorem nodup_nodeIds_mergeFile_iff (hids : g.nodeIds.Nodup) (calls : CallGraph) (path : String) :
    (g.mergeFile path (ofCallGraph calls path)).graph.nodeIds =
        g.otherIds path ++ calls.names.map (nodeId path) ∧
      ((g.mergeFile path (ofCallGraph calls path)).graph.nodeIds.Nodup ↔
        ∀ name ∈ calls.names, nodeId path name ∉ g.otherIds path) := by
  have hmerged : (g.mergeFile path (ofCallGraph calls path)).graph.nodeIds =
      g.otherIds path ++ calls.names.map (nodeId path) := by
    rw [nodeIds, nodes_mergeFile, List.map_append, nodes_removeFile hids, ← nodeIds_ofCallGraph]
    rfl
  have hothers : (g.otherIds path).Nodup := hids.sublist (List.filter_sublist.map _)
  have hnames : (calls.names.map (nodeId path)).Nodup :=
    calls.nodup_names.map fun _ _ => nodeId_inj_right.mp
  refine ⟨hmerged, ?_⟩
  -- Neither part repeats an id, so that only an id of both is left.
  rw [hmerged, List.nodup_append', and_iff_right hothers, and_iff_right hnames, List.disjoint_right,
    List.forall_mem_map]

/-- A file that is shown already is merged again with a new function. The suffixed id that a node of
another file has is none of its plain ids. -/
theorem nodup_nodeIds_mergeFile_iff_of_suffixed_id :
    let g : Graph := ⟨[.ofFunction "a.py::f" "a.py" ⟨"f", 1, 4, []⟩,
      ⟨"a.py::f::2", "Ask", "llm", ⟨"b.py", 2, "f"⟩, true, true, false, none⟩], []⟩
    let calls := CallGraph.ofList [⟨"f", 1, 2, []⟩, ⟨"h", 4, 6, ["f"]⟩]
    g.nodeIds.Nodup ∧ (g.mergeFile "a.py" (ofCallGraph calls "a.py")).graph.nodeIds.Nodup := by
  intro g calls
  have hids : g.nodeIds.Nodup := by decide
  have hapart : ∀ name ∈ calls.names, nodeId "a.py" name ∉ g.otherIds "a.py" := by decide +kernel
  exact ⟨hids, (nodup_nodeIds_mergeFile_iff hids calls "a.py").2.mpr hapart⟩

/-- A function that comes in by a merge can share its id with a node of another file, which an analysis
has named as seen from another directory. -/
theorem exists_shared_id_after_merge :
    ∃ (g : Graph) (path : String) (calls : CallGraph), g.nodeIds.Nodup ∧
      ¬ (g.mergeFile path (ofCallGraph calls path)).graph.nodeIds.Nodup :=
  ⟨⟨[⟨"agent.py::ask", "Ask", "llm", ⟨"src/agent.py", 3, "ask"⟩, true, true, false, none⟩], []⟩,
    "agent.py", .ofList [⟨"ask", 1, 2, []⟩], by decide, by decide +kernel⟩

end Graph

end Flowgraph
