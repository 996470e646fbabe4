import Flowgraph.Proofs.Graph.Altering
import Flowgraph.Proofs.Graph.Drawing
import Flowgraph.Proofs.Outcome

/-!
# Files without nodes

No operation on one file brings nodes of another into a graph, whatever the ids of the graph are.
-/

namespace Flowgraph

namespace Graph

variable {g h : Graph} {file path : String}

/-- Whether the graph has no node of a file. -/
def Lacks (g : Graph) (file : String) : Prop := ∀ n ∈ g.nodes, n.source.file ≠ file

theorem lacks_iff : g.Lacks file ↔ g.hasFile file = false := by
  simp [Lacks, hasFile]

theorem lacks_congr (hkeys : h.nodes.map Node.key = g.nodes.map Node.key) :
    h.Lacks file ↔ g.Lacks file := by
  have hlacks (k : Graph) : k.Lacks file ↔ ∀ key ∈ k.nodes.map Node.key, key.2.1 ≠ file := by
    simp only [Lacks, Node.key, List.forall_mem_map]
  rw [hlacks, hlacks, hkeys]

namespace Lacks

theorem of_subset (hg : g.Lacks file) (hnodes : h.nodes ⊆ g.nodes) : h.Lacks file :=
  fun n hn => hg n (hnodes hn)

theorem of_nodes_eq (hg : g.Lacks file) (hnodes : h.nodes = g.nodes) : h.Lacks file :=
  hg.of_subset (hnodes ▸ List.Subset.refl _)

theorem addNode (hg : g.Lacks file) {n : Node} (hn : n.source.file ≠ file) :
    (g.addNode n).Lacks file := fun m hm =>
  (List.mem_append.mp hm).elim (hg m) fun hm => List.mem_singleton.mp hm ▸ hn

/-! ## Flags and edges -/

theorem refreshEndpoints (hg : g.Lacks file) : g.refreshEndpoints.Lacks file := by
  -- Every round changes flags alone, whichever node it finds.
  refine List.foldlRecOn (motive := (Lacks · file)) g.pendingIds _ hg fun h hh id _ =>
    (lacks_congr ?_).mpr hh
  have hkey : ∀ n : Node, Node.key
      { n with isEntryPoint := g.isEntry id, isExitPoint := g.isExit id } = n.key := fun _ => rfl
  exact map_updateFirst hkey h.nodes

theorem splice (hg : g.Lacks file) (path : String) (calls : List CrossFileCall) :
    (g.splice path calls).graph.Lacks file := by
  rw [graph_splice]
  split
  · exact hg
  · exact (hg.of_nodes_eq nodes_withDrawnEdges).refreshEndpoints

theorem spliceFiles (hg : g.Lacks file) (r : Resolver) (files : List String) :
    (g.spliceFiles r files).Lacks file :=
  List.foldlRecOn (motive := (Lacks · file)) files _ hg fun _ hh path _ => hh.splice path _

/-! ## Removing and merging -/

theorem removeFile (hg : g.Lacks file) (path : String) : (g.removeFile path).Lacks file := by
  rw [Graph.removeFile, foldl_removeNode]
  exact hg.of_subset (List.filter_subset_self _)

end Lacks

/-- A file that has been removed has no nodes. -/
theorem lacks_removeFile (g : Graph) (path : String) : (g.removeFile path).Lacks path := by
  rw [removeFile, foldl_removeNode]
  rintro n hn rfl
  obtain ⟨hn, hid⟩ := List.mem_filter.mp hn
  have hmem : n.id ∈ (g.fileNodes n.source.file).map (·.id) :=
    List.mem_map_of_mem (List.mem_filter.mpr ⟨hn, beq_self_eq_true _⟩)
  simp only [Bool.not_eq_true', ← Bool.not_eq_true, List.contains_iff_mem] at hid
  exact hid hmem

namespace Lacks

theorem mergeFile (hg : g.Lacks file) (hne : file ≠ path) (calls : CallGraph) :
    (g.mergeFile path (ofCallGraph calls path)).graph.Lacks file := by
  intro n hn
  rw [nodes_mergeFile] at hn
  rcases List.mem_append.mp hn with hn | hn
  · exact hg.removeFile path n hn
  · rw [(depicts_ofCallGraph _ path).file_eq n hn]
    exact hne.symm

end Lacks

/-! ## Applying a difference -/

section ApplyDiff

variable {u v : Update} {diff : CallGraphDiff} {new : CallGraph}

theorem Update.Alters.lacks (h : Update.Alters diff new path u v) (hne : file ≠ path)
    (hu : u.graph.Lacks file) : v.graph.Lacks file := by
  cases h with
  | drop name id => exact hu.of_subset (List.filter_subset_self _)
  | add f => exact hu.addNode hne.symm
  | move name id line => exact (lacks_congr map_key_moveFunction).mpr hu
  | note => exact hu
  | unlink => exact hu.of_nodes_eq rfl
  | link caller callee source target =>
    rw [Update.graph_link]
    exact hu.of_nodes_eq (nodes_addEdge _ _)

theorem Lacks.applyDiff (hg : g.Lacks file) (hne : file ≠ path)
    (h : g.applyDiff diff new path = .ok u) : u.graph.Lacks file := by
  obtain ⟨v, hv, rfl⟩ := exists_of_applyDiff (P := fun u => u.graph.Lacks file) hg
    (fun u v halters hu => halters.lacks hne hu) h
  rcases v.finish_eq_or with heq | heq
  · rw [heq]
    exact hv
  · rw [heq]
    exact hv.refreshEndpoints

end ApplyDiff

end Graph

end Flowgraph
