import Flowgraph.Proofs.Graph.Trades
import Flowgraph.Proofs.Graph.Unchanged
import Flowgraph.Proofs.Store.Reports

/-!
# Empty patches

The patch of an update or a removal is empty just where neither the node ids nor the edges of the graph
have changed. A removal or a classification that reports nothing leaves the whole graph as it is.
-/

namespace Flowgraph

namespace Store

variable {s t : Store} {path content : String} {p : Patch}

/-! ## Drawing -/

section Drawing

variable {g : Graph} {q : Patched}

theorem Patched.trades_foldl_spliceFile (path : String) (calls : CallGraph) (files : List String)
    (hq : q.store.graph.WellFormed) (hr : q.store.resolver.IsProper)
    (htrades : g.Trades (Graph.Wanted path calls q.store.resolver) q.store.graph q.patch.edgesAdded
      q.patch.edgesRemoved) :
    g.Trades (Graph.Wanted path calls q.store.resolver) (files.foldl Patched.spliceFile q).store.graph
      (files.foldl Patched.spliceFile q).patch.edgesAdded
      (files.foldl Patched.spliceFile q).patch.edgesRemoved := by
  induction files generalizing q with
  | nil => exact htrades
  | cons file files ih =>
    exact ih (q := q.spliceFile file) (Graph.Draws.splice hq hr file).wellFormed hr
      (htrades.trans (hq.trades_splice hr path calls file))

/-- Where nothing is counted in the end, no edge has been drawn on the way. -/
theorem Patched.unchanged_foldl_spliceFile (files : List String)
    (hempty : (files.foldl Patched.spliceFile q).patch.isEmpty = true) :
    q.patch.isEmpty = true ∧ (files.foldl Patched.spliceFile q).store.graph = q.store.graph := by
  induction files generalizing q with
  | nil => exact ⟨hempty, rfl⟩
  | cons file files ih =>
    obtain ⟨hfirst, hrest⟩ := ih hempty
    simp only [Patched.spliceFile, Patch.isEmpty, Bool.and_eq_true, beq_iff_eq,
      Nat.add_eq_zero_iff] at hfirst
    obtain ⟨⟨hnodes, hadded, hadded'⟩, hremoved, hremoved'⟩ := hfirst
    refine ⟨by simp [Patch.isEmpty, hnodes, hadded, hremoved], hrest.trans ?_⟩
    rw [Patched.spliceFile, Graph.graph_splice, if_pos ⟨hadded', hremoved'⟩]

end Drawing

/-! ## Updates -/

/-- A change that brings no node and takes none away trades edges. -/
theorem InStep.trades_plan [Parsers] {r : Resolver} {u : Graph.Update} (hs : s.InStep) (hr : r.IsProper)
    (hplan : s.plan path content (extract content path) = .patch u ∨
      s.plan path content (extract content path) = .join u)
    (hadded : u.patch.nodesAdded = []) (hremoved : u.patch.nodesRemoved = []) :
    u.graph.WellFormed ∧ s.graph.Trades (Graph.Wanted path (extract content path) r) u.graph
      u.patch.edgesAdded u.patch.edgesRemoved := by
  have hplain := hasPlainNames_extract content path
  rcases plan_cases hplan with ⟨old, -, hdiff⟩ | ⟨hfile, rfl⟩
  · exact ⟨hs.wellFormed.applyDiff hplain hdiff,
      hs.wellFormed.trades_applyDiff hplain hr hdiff hremoved⟩
  -- A file without functions comes without a trace.
  · have hcalls : (extract content path).toList = [] := by
      refine List.eq_nil_iff_forall_not_mem.mpr fun f hf => ?_
      have hplace : (⟨path, f.startLine, f.name⟩ : Location) ∈
          (Graph.ofCallGraph (extract content path) path).places :=
        ((Graph.depicts_ofCallGraph _ path).mem_places _).mpr ⟨rfl, f, CallGraph.mem_toList.mp hf, rfl⟩
      have hnodes : (Graph.ofCallGraph (extract content path) path).nodes = [] :=
        List.map_eq_nil_iff.mp hadded
      rw [Graph.places, hnodes] at hplace
      exact List.not_mem_nil hplace
    rw [Graph.mergeFile_of_isEmpty hfile hcalls]
    exact ⟨hs.wellFormed, .refl s.graph⟩

/-- An update that brings no node and takes none away trades edges. -/
theorem InStep.trades_localUpdate [Parsers] (hs : s.InStep)
    (h : s.localUpdate path content = .ok (t, some p))
    (hadded : p.nodesAdded = []) (hremoved : p.nodesRemoved = []) :
    s.graph.Trades (Graph.Wanted path (extract content path) t.resolver) t.graph p.edgesAdded
      p.edgesRemoved := by
  generalize hpatch : some p = patch at h
  cases revises_of_localUpdate h with
  | unsupported | refused => cases hpatch
  | remembered entry =>
    split at hpatch <;> cases hpatch
    exact .refl s.graph
  | drawn entry u q hlanguage hplan hq =>
    cases hpatch
    have hr := Resolver.isProper_updateEntry hs.proper path entry
    have hresolver : q.store.resolver = (s.resolver.updateEntry path entry).resolver := by
      rw [hq, store_foldl_spliceFile]
      rfl
    rw [hresolver, hq]
    obtain ⟨added, removed, hcounts⟩ := exists_patch_foldl_spliceFile
      ((s.resolver.updateEntry path entry).affected.insert path).toList
      ⟨{ s.withFile path content (extract content path) entry with graph := u.graph }, u.patch⟩
    rw [hq, hcounts] at hadded hremoved
    obtain ⟨hu, htrades⟩ := hs.trades_plan hr hplan hadded hremoved
    exact Patched.trades_foldl_spliceFile (q := ⟨{ s.withFile path content
      (extract content path) entry with graph := u.graph }, u.patch⟩) path _ _ hu hr htrades

/-- The patch of an update is empty just where neither the ids nor the edges have changed. -/
theorem InStep.isEmpty_localUpdate_iff [Parsers] (hs : s.InStep)
    (h : s.localUpdate path content = .ok (t, some p)) :
    p.isEmpty = true ↔ s.graph.SameParts t.graph :=
  (reports_of_localUpdate hs.wellFormed.idsRight h).isEmpty_iff (hs.trades_localUpdate h)

/-! ## Removals -/

theorem graph_withoutFile_of_nodesRemoved (hnone : (s.withoutFile path).patch.nodesRemoved = []) :
    (s.withoutFile path).store.graph = s.graph := by
  have hnodes : s.graph.fileNodes path = [] := List.map_eq_nil_iff.mp hnone
  change s.graph.removeFile path = s.graph
  rw [Graph.removeFile, hnodes]
  rfl

theorem edges_removeFile (hs : s.InStep) (path : String) :
    (s.removeFile path).store.graph.edges = (s.drawnWithout path).store.graph.edges := by
  have hids := (wellFormed_graphWithout hs.wellFormed hs.proper path).nodup_nodeIds
  rw [graph_removeFile, store_drawnWithout]
  split
  · rfl
  · exact Graph.edges_refreshEndpoints hids

/-- A removal that takes no node away trades edges. -/
theorem InStep.trades_removeFile (hs : s.InStep)
    (hremoved : (s.removeFile path).patch.nodesRemoved = []) :
    s.graph.Trades (Graph.Wanted path .empty (s.resolver.removeFile path).resolver)
      (s.removeFile path).store.graph (s.removeFile path).patch.edgesAdded
      (s.removeFile path).patch.edgesRemoved := by
  obtain ⟨added, removed, hcounts⟩ := s.exists_patch_removeFile path
  rw [hcounts] at hremoved
  have hgraph := graph_withoutFile_of_nodesRemoved hremoved
  have hedges : (s.withoutFile path).patch.edgesRemoved = 0 := by
    change s.graph.edges.length - (s.withoutFile path).store.graph.edges.length = 0
    rw [hgraph, Nat.sub_self]
  have hwf : (s.withoutFile path).store.graph.WellFormed := hgraph ▸ hs.wellFormed
  have htrades := Patched.trades_foldl_spliceFile (q := s.withoutFile path) (g := s.graph) path .empty
    (s.resolver.removeFile path).affected.toList hwf (Resolver.isProper_removeFile hs.proper path)
    (by rw [hgraph, hedges]; exact .refl s.graph)
  rw [patch_removeFile]
  exact htrades.congr (edges_removeFile hs path)

/-- The patch of a removal is empty just where neither the ids nor the edges have changed. -/
theorem InStep.isEmpty_removeFile_iff (hs : s.InStep) (path : String) :
    (s.removeFile path).patch.isEmpty = true ↔
      s.graph.SameParts (s.removeFile path).store.graph :=
  (reports_removeFile hs.wellFormed.idsRight path).2.isEmpty_iff fun _ => hs.trades_removeFile

theorem graph_eq_of_isEmpty_removeFile (hempty : (s.removeFile path).patch.isEmpty = true) :
    (s.removeFile path).store.graph = s.graph := by
  rw [graph_removeFile, if_pos hempty]
  rw [patch_removeFile] at hempty
  obtain ⟨hnone, hgraph⟩ := Patched.unchanged_foldl_spliceFile _ hempty
  simp only [Patch.isEmpty, Bool.and_eq_true, List.isEmpty_iff] at hnone
  calc s.graphWithout path = (s.drawnWithout path).store.graph := by rw [store_drawnWithout]
    _ = (s.withoutFile path).store.graph := hgraph
    _ = s.graph := graph_withoutFile_of_nodesRemoved hnone.1.1.2

end Store

end Flowgraph
