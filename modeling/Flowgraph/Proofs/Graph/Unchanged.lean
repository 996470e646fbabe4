import Flowgraph.Proofs.CallGraph.Diff
import Flowgraph.Proofs.Graph.Splicing

/-!
# Updates that change nothing

A file with the same call graph as before leaves the graph as it is, and so does a file without
functions that is merged into it. Drawing calls that are drawn already can only remove edges.
-/

namespace Flowgraph

namespace Graph

variable {g : Graph} {path : String} {calls : CallGraph}

/-! ## Nodes -/

theorem applyDiff_self (g : Graph) (calls : CallGraph) (path : String) :
    g.applyDiff (calls.diff calls) calls path = .ok ⟨g, .empty⟩ := by
  rw [CallGraph.diff_self, applyDiff]
  rfl

theorem ofCallGraph_of_isEmpty (hcalls : calls.toList = []) : ofCallGraph calls path = empty := by
  rw [ofCallGraph, hcalls]
  rfl

/-- A file that has neither nodes nor functions is merged without a trace. -/
theorem mergeFile_of_isEmpty (hfile : g.hasFile path = false) (hcalls : calls.toList = []) :
    g.mergeFile path (ofCallGraph calls path) = ⟨g, .empty⟩ := by
  have hnodes := fileNodes_of_not_hasFile hfile
  simp [mergeFile, ofCallGraph_of_isEmpty hcalls, removeFile, hnodes, empty, Patch.empty, nodeIds,
    pendingIds]

/-! ## Edges -/

section Splice

variable {cs : List CrossFileCall}

theorem withKeptEdges_eq_self_iff_length :
    g.withKeptEdges path cs = g ↔ g.edges.length - (g.withKeptEdges path cs).edges.length = 0 := by
  rw [Nat.sub_eq_zero_iff_le]
  constructor
  · intro heq
    exact Nat.le_of_eq (congrArg (fun h : Graph => h.edges.length) heq).symm
  · intro hlength
    have hedges : (g.withKeptEdges path cs).edges = g.edges :=
      List.filter_sublist.eq_of_length_le hlength
    exact congrArg (Graph.mk g.nodes) hedges

/-- The edges out of a file all stay if each of them has a call. -/
theorem withKeptEdges_eq_self_iff (hg : g.WellFormed)
    (hunnamed : ∀ e ∈ g.edges, e = .unresolved e.source e.target) :
    g.withKeptEdges path cs = g ↔ ∀ function file' function', g.Shows path function →
      g.Shows file' function' → file' ≠ path →
      g.hasEdge (nodeId path function) (nodeId file' function') = true →
      ∃ c ∈ cs, c.Joins path function file' function' := by
  have hfilter : g.withKeptEdges path cs = g ↔ ∀ e ∈ g.edges,
      staysLinked ((g.fileNodes path).map (·.id)) (g.desiredLinks path cs) e = true := by
    rw [← List.filter_eq_self]
    exact ⟨congrArg Graph.edges, congrArg (Graph.mk g.nodes)⟩
  rw [hfilter]
  constructor
  · intro hstay function file' function' hs ht hne hedge
    obtain ⟨e, he, hsource, htarget⟩ := hasEdge_iff.mp hedge
    have hstays := hstay e he
    rw [staysLinked_iff, hsource, htarget, hg.nodeId_mem_ids_fileNodes hs,
      hg.nodeId_mem_ids_fileNodes ht, hunnamed e he] at hstays
    rcases hstays with hin | hnamed | hlink
    · exact absurd (hin rfl) hne
    · exact absurd rfl hnamed
    · exact ((mem_desiredLinks_nodeId hg hs ht).mp hlink).2
  · intro hcall e he
    obtain ⟨hsource, htarget⟩ := hg.closed e he
    obtain ⟨file, function, hs, hes⟩ := hg.exists_shows_of_containsNode hsource
    obtain ⟨file', function', ht, het⟩ := hg.exists_shows_of_containsNode htarget
    rw [staysLinked_iff, hes, het, hg.nodeId_mem_ids_fileNodes hs, hg.nodeId_mem_ids_fileNodes ht,
      mem_desiredLinks_nodeId hg hs ht]
    by_cases hfiles : file = path → file' = path
    · exact .inl hfiles
    · rw [Classical.not_imp] at hfiles
      obtain ⟨rfl, hne⟩ := hfiles
      have hedge := hasEdge_iff.mpr ⟨e, he, hes, het⟩
      exact .inr (.inr ⟨rfl, hcall function file' function' hs ht hne hedge⟩)

/-- Where all calls are drawn already, drawing them adds no edge. -/
theorem splice_of_linked (hids : g.nodeIds.Nodup)
    (hlinked : ∀ p ∈ g.desiredLinks path cs, g.hasEdge p.1 p.2 = true) :
    (g.splice path cs).added = 0 ∧
      ((g.splice path cs).removed = 0 ↔ g.withKeptEdges path cs = g) ∧
      ((g.splice path cs).graph = g ↔ g.withKeptEdges path cs = g) := by
  have hnew := newLinks_eq_nil.mpr hlinked
  have hadded : (g.splice path cs).added = 0 := by rw [added_splice_eq_length, hnew, List.length_nil]
  have hedges : (g.withDrawnEdges path cs).edges = (g.withKeptEdges path cs).edges := by
    rw [edges_withDrawnEdges, hnew, List.map_nil, List.append_nil, ← edges_withKeptEdges]
  have hdrawn : g.withDrawnEdges path cs = g.withKeptEdges path cs :=
    congrArg₂ Graph.mk nodes_withDrawnEdges hedges
  have hremoved : (g.splice path cs).removed = 0 ↔ g.withKeptEdges path cs = g := by
    rw [removed_splice, withKeptEdges_eq_self_iff_length]
  refine ⟨hadded, hremoved, ?_⟩
  rw [graph_splice, hdrawn]
  by_cases hkeep : g.withKeptEdges path cs = g
  · rw [if_pos ⟨hadded, hremoved.mpr hkeep⟩]
    exact iff_of_true rfl hkeep
  · rw [if_neg fun hsame => hkeep (hremoved.mp hsame.2)]
    refine iff_of_false (fun heq => hkeep ?_) hkeep
    have hkept := congrArg Graph.edges heq
    rw [edges_refreshEndpoints (g := g.withKeptEdges path cs) hids] at hkept
    exact congrArg (Graph.mk g.nodes) hkept

end Splice

end Graph

end Flowgraph
