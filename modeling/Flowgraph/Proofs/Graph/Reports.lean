import Flowgraph.Proofs.Graph.Altering
import Flowgraph.Proofs.Graph.CrossFile

/-!
# Exact reports

What a patch reports is what has changed: the ids that have come and gone, the number of edges, and
that nothing but the lines of nodes has changed where the patch is empty. This needs right ids alone,
and says nothing of what the edges link.
-/

namespace Flowgraph

/-- What no change of an edge or a line touches of a node, its flags apart. -/
def Node.mark (n : Node) : (String × String × String) × Bool := (n.key, n.pending)

namespace Graph

variable {g h k : Graph} {path : String} {added removed : Nat}

/-! ## Edges -/

theorem map_key_of_map_mark (hmarks : h.nodes.map Node.mark = g.nodes.map Node.mark) :
    h.nodes.map Node.key = g.nodes.map Node.key := by
  have hkeys (k : Graph) : k.nodes.map Node.key = (k.nodes.map Node.mark).map Prod.fst := by
    rw [List.map_map]
    rfl
  rw [hkeys, hkeys, hmarks]

theorem map_mark_refreshEndpoints (hids : g.nodeIds.Nodup) :
    g.refreshEndpoints.nodes.map Node.mark = g.nodes.map Node.mark := by
  rw [refreshEndpoints_eq hids, List.map_map]
  refine List.map_congr_left fun n _ => ?_
  simp only [Function.comp_apply, Node.mark, Node.key, source_refreshNode, id_refreshNode,
    pending_refreshNode]

/-- From `g` to `h`, so many edges come and so many go, and no nodes. Where no edge does either, the
flags stay too. -/
structure Retouches (g h : Graph) (added removed : Nat) : Prop where
  marks_eq : h.nodes.map Node.mark = g.nodes.map Node.mark
  edges_length : h.edges.length + removed = g.edges.length + added
  same : added = 0 → removed = 0 → g.SameButLines h

namespace Retouches

theorem idsRight (hr : g.Retouches h added removed) (hg : g.IdsRight) : h.IdsRight :=
  hg.congr (map_key_of_map_mark hr.marks_eq)

theorem refl (g : Graph) : g.Retouches g 0 0 := ⟨rfl, rfl, fun _ _ => .refl g⟩

theorem moveFunction (g : Graph) (path name : String) (line : Nat) :
    g.Retouches (Update.moveFunction path name line g) 0 0 :=
  ⟨map_updateFirst (f := (·.moveTo line)) (fun _ => rfl) g.nodes, rfl,
    fun _ _ => .moveFunction g path name line⟩

theorem filterEdges (g : Graph) (keep : Edge → Bool) :
    g.Retouches ⟨g.nodes, g.edges.filter keep⟩ 0
      (g.edges.length - (g.edges.filter keep).length) := by
  have hle := List.length_filter_le keep g.edges
  refine ⟨rfl, ?_, fun _ hnone => ⟨?_, rfl⟩⟩
  · simp only
    omega
  · exact List.filter_sublist.eq_of_length_le (Nat.sub_eq_zero_iff_le.mp hnone)

theorem addEdge_of_not_hasEdge {e : Edge} (hnew : g.hasEdge e.source e.target = false) :
    g.Retouches (g.addEdge e) 1 0 := by
  refine ⟨by rw [nodes_addEdge], ?_, fun hone => absurd hone Nat.one_ne_zero⟩
  rw [edges_addEdge_of_not_hasEdge hnew, List.length_append]
  rfl

/-- The flags are brought up to date where the edges have changed. -/
theorem refreshEndpoints (hr : g.Retouches h added removed) (hids : h.nodeIds.Nodup)
    (hchanged : ¬ (added = 0 ∧ removed = 0)) : g.Retouches h.refreshEndpoints added removed := by
  refine ⟨?_, ?_, fun hadded hremoved => absurd ⟨hadded, hremoved⟩ hchanged⟩
  · rw [map_mark_refreshEndpoints hids, hr.marks_eq]
  · rw [edges_refreshEndpoints hids, hr.edges_length]

/-- What comes and what goes between files is counted apart. -/
theorem splice (hg : g.IdsRight) (path : String) (calls : List CrossFileCall) :
    g.Retouches (g.splice path calls).graph (g.splice path calls).added
      (g.splice path calls).removed := by
  have hdrawn : g.Retouches (g.withDrawnEdges path calls) (g.splice path calls).added
      (g.splice path calls).removed := by
    refine ⟨by rw [nodes_withDrawnEdges], length_edges_withDrawnEdges, fun hadded hremoved => ?_⟩
    rw [withDrawnEdges_eq_self hadded hremoved]
    exact .refl g
  rw [graph_splice]
  split
  next hsame =>
    rw [hsame.1, hsame.2]
    exact .refl g
  next hchanged => exact hdrawn.refreshEndpoints (hdrawn.idsRight hg).nodup_nodeIds hchanged

end Retouches

end Graph

namespace Patch

open Flowgraph.Graph

variable {g h k : Graph} {p : Patch} {id : String} {added removed : Nat}

/-! ## Reports -/

/-- `p` tells how `h` differs from `g`. -/
structure Reports (p : Patch) (g h : Graph) : Prop where
  nodeIds_eq : h.nodeIds = (g.nodeIds.filter fun id => !p.nodesRemoved.contains id) ++ p.nodesAdded
  nodup_nodesRemoved : p.nodesRemoved.Nodup
  nodup_nodesAdded : p.nodesAdded.Nodup
  nodesRemoved_subset : p.nodesRemoved ⊆ g.nodeIds
  nodesAdded_new : ∀ id ∈ p.nodesAdded, id ∉ g.nodeIds
  edges_length : h.edges.length + p.edgesRemoved = g.edges.length + p.edgesAdded
  needsMetadata_eq : p.needsMetadata = p.nodesAdded
  pending : ∀ n ∈ h.nodes, n.id ∈ p.nodesAdded → n.pending = true
  of_isEmpty : p.isEmpty = true → g.SameButLines h

theorem reports_empty (g : Graph) : empty.Reports g g where
  nodeIds_eq := by simp [empty]
  nodup_nodesRemoved := List.nodup_nil
  nodup_nodesAdded := List.nodup_nil
  nodesRemoved_subset := List.nil_subset _
  nodesAdded_new id hid := absurd hid List.not_mem_nil
  edges_length := rfl
  needsMetadata_eq := rfl
  pending n _ hid := absurd hid List.not_mem_nil
  of_isEmpty _ := .refl g

namespace Reports

theorem mem_nodeIds (hp : p.Reports g h) :
    id ∈ h.nodeIds ↔ (id ∈ g.nodeIds ∧ id ∉ p.nodesRemoved) ∨ id ∈ p.nodesAdded := by
  rw [hp.nodeIds_eq, List.mem_append, List.mem_filter, Bool.not_eq_true', ← Bool.not_eq_true,
    List.contains_iff_mem]

/-- While no node comes or goes, the edges are all that has to be counted again. -/
theorem of_marks_eq (hp : p.Reports g h) (hmarks : k.nodes.map Node.mark = h.nodes.map Node.mark)
    {q : Patch} (hadded : q.nodesAdded = p.nodesAdded) (hremoved : q.nodesRemoved = p.nodesRemoved)
    (hmetadata : q.needsMetadata = p.needsMetadata)
    (hlength : k.edges.length + q.edgesRemoved = g.edges.length + q.edgesAdded)
    (hsame : q.isEmpty = true → g.SameButLines k) : q.Reports g k where
  nodeIds_eq := by
    rw [nodeIds_congr (map_key_of_map_mark hmarks), hp.nodeIds_eq, hadded, hremoved]
  nodup_nodesRemoved := hremoved ▸ hp.nodup_nodesRemoved
  nodup_nodesAdded := hadded ▸ hp.nodup_nodesAdded
  nodesRemoved_subset := hremoved ▸ hp.nodesRemoved_subset
  nodesAdded_new := hadded ▸ hp.nodesAdded_new
  edges_length := hlength
  needsMetadata_eq := by rw [hmetadata, hadded, hp.needsMetadata_eq]
  pending n hn hid := by
    obtain ⟨m, hm, hmark⟩ := List.mem_map.mp (hmarks ▸ List.mem_map_of_mem hn)
    simp only [Node.mark, Node.key, Prod.mk.injEq] at hmark
    rw [hadded, ← hmark.1.1] at hid
    rw [← hmark.2]
    exact hp.pending m hm hid
  of_isEmpty := hsame

theorem retouch (hp : p.Reports g h) (hr : h.Retouches k added removed)
    (updated changed : List String) :
    Reports { p with
      nodesUpdated := updated
      edgesAdded := p.edgesAdded + added
      edgesRemoved := p.edgesRemoved + removed
      changedFunctions := changed } g k := by
  refine hp.of_marks_eq hr.marks_eq rfl rfl rfl ?_ fun hnone => ?_
  · have hbefore := hp.edges_length
    have hafter := hr.edges_length
    simp only
    omega
  · simp only [isEmpty, Bool.and_eq_true, beq_iff_eq, Nat.add_eq_zero_iff] at hnone
    obtain ⟨⟨hnodes, hadded, hadded'⟩, hremoved, hremoved'⟩ := hnone
    refine (hp.of_isEmpty ?_).trans (hr.same hadded' hremoved')
    simp [isEmpty, hnodes, hadded, hremoved]

/-- The flags are brought up to date where something has changed. -/
theorem refreshEndpoints (hp : p.Reports g h) (hids : h.nodeIds.Nodup) (hsome : p.isEmpty = false) :
    p.Reports g h.refreshEndpoints := by
  refine hp.of_marks_eq (map_mark_refreshEndpoints hids) rfl rfl rfl ?_ fun hnone => ?_
  · rw [edges_refreshEndpoints hids, hp.edges_length]
  · rw [hsome] at hnone
    cases hnone

/-- A node goes, with the edges that touch it. -/
theorem drop (hp : p.Reports g h) (hnone : p.nodesAdded = []) (hid : id ∈ h.nodeIds) :
    Reports { p with
      nodesRemoved := p.nodesRemoved ++ [id]
      edgesRemoved := p.edgesRemoved + (h.edges.length - (h.removeNode id).edges.length) }
      g (h.removeNode id) := by
  -- Nothing has come yet, so that the node was there at the start.
  obtain ⟨hid, hold⟩ : id ∈ g.nodeIds ∧ id ∉ p.nodesRemoved := by
    rw [hp.mem_nodeIds, hnone] at hid
    exact hid.resolve_right List.not_mem_nil
  refine ⟨?_, ?_, hp.nodup_nodesAdded, ?_, hp.nodesAdded_new, ?_, hp.needsMetadata_eq, ?_, ?_⟩
  · have hids : (h.removeNode id).nodeIds = h.nodeIds.filter (· != id) := by
      rw [nodeIds, nodeIds, List.filter_map]
      rfl
    rw [hids, hp.nodeIds_eq, hnone, List.append_nil, List.append_nil, List.filter_filter]
    refine List.filter_congr fun other _ => ?_
    rw [Bool.eq_iff_iff]
    simp [and_comm]
  · exact hp.nodup_nodesRemoved.append (List.nodup_singleton id) (by simpa using hold)
  · exact List.append_subset.mpr ⟨hp.nodesRemoved_subset, by simpa using hid⟩
  · have hle : (h.removeNode id).edges.length ≤ h.edges.length := List.length_filter_le _ _
    have hbefore := hp.edges_length
    simp only
    omega
  · intro n hn
    exact hp.pending n (List.mem_of_mem_filter hn)
  · intro hempty
    simp [isEmpty] at hempty

/-- A pending node comes, with a new id. -/
theorem add (hp : p.Reports g h) {n : Node} (hold : n.id ∉ g.nodeIds) (hnew : n.id ∉ p.nodesAdded)
    (hpending : n.pending = true) :
    Reports { p with
      nodesAdded := p.nodesAdded ++ [n.id]
      needsMetadata := p.needsMetadata ++ [n.id] } g (h.addNode n) := by
  refine ⟨?_, hp.nodup_nodesRemoved, ?_, hp.nodesRemoved_subset, ?_, hp.edges_length, ?_, ?_, ?_⟩
  · have hids : (h.addNode n).nodeIds = h.nodeIds ++ [n.id] := by
      simp [nodeIds, addNode]
    rw [hids, hp.nodeIds_eq, List.append_assoc]
  · exact hp.nodup_nodesAdded.append (List.nodup_singleton n.id) (by simpa using hnew)
  · intro id hid
    rcases List.mem_append.mp hid with hid | hid
    · exact hp.nodesAdded_new id hid
    · rw [List.mem_singleton.mp hid]
      exact hold
  · rw [hp.needsMetadata_eq]
  · intro m hm hid
    rcases List.mem_append.mp hm with hm | hm
    -- A node that was there before has an id of its own.
    · refine hp.pending m hm ((List.mem_append.mp hid).resolve_right fun heq => ?_)
      have hmem : m.id ∈ h.nodeIds := List.mem_map_of_mem hm
      rw [List.mem_singleton.mp heq, hp.mem_nodeIds] at hmem
      exact hmem.elim (fun hg => hold hg.1) hnew
    · rw [List.mem_singleton.mp hm]
      exact hpending
  · intro hempty
    simp [isEmpty] at hempty

end Reports

end Patch

namespace Graph

/-! ## Whole differences -/

section ApplyDiff

variable {g : Graph} {diff : CallGraphDiff} {new : CallGraph} {path : String} {u v : Update}

/-- The patch of `u` tells how its graph differs from `g`, and the ids that have gone are those of
functions that the difference removes. -/
structure Update.Accounts (g : Graph) (diff : CallGraphDiff) (path : String) (u : Update) : Prop where
  idsRight : u.graph.IdsRight
  reports : u.patch.Reports g u.graph
  removed : ∀ id ∈ u.patch.nodesRemoved, ∃ name ∈ diff.removedFunctions, id = nodeId path name

theorem Update.Accounts.link (hu : u.Accounts g diff path) (source target : String) :
    (u.link source target).Accounts g diff path := by
  unfold Update.link
  split
  next => exact hu
  next hlinked =>
    have hnew : u.graph.hasEdge source target = false := by simpa using hlinked
    have hr := Retouches.addEdge_of_not_hasEdge (e := .unresolved source target) hnew
    exact ⟨hr.idsRight hu.idsRight, hu.reports.retouch hr _ _, hu.removed⟩

theorem Update.Alters.accounts (h : Update.Alters diff new path u v) (hplain : new.HasPlainNames)
    (hapart : ∀ name ∈ diff.removedFunctions, name ∉ diff.addedFunctions)
    (hu : u.Accounts g diff path) : v.Accounts g diff path := by
  have hids := h.idsRight hplain hu.idsRight
  cases h with
  | drop name id hname hnone hid =>
    obtain ⟨-, rfl⟩ := hu.idsRight.functionNodeId?_eq_some.mp hid
    refine ⟨hids, hu.reports.drop hnone (mem_nodeIds_of_functionNodeId? hid), fun id hgone => ?_⟩
    rcases List.mem_append.mp hgone with hgone | hgone
    · exact hu.removed id hgone
    · exact ⟨name, hname, List.mem_singleton.mp hgone⟩
  | add f hname hf hnew =>
    obtain ⟨hplain', hid⟩ := hu.idsRight.isPlainName_and_allocateId_eq hplain hf hnew
    have hfree : nodeId path f.name ∉ u.graph.nodeIds :=
      mt (hu.idsRight.nodeId_mem_nodeIds hplain').mp hnew
    rw [hu.reports.mem_nodeIds, not_or] at hfree
    -- No node of the function has gone before, and so none was there at the start.
    have hold : nodeId path f.name ∉ g.nodeIds := by
      intro hmem
      obtain ⟨name, hgone, heq⟩ := hu.removed _ (by_contra fun hkept => hfree.1 ⟨hmem, hkept⟩)
      exact hapart name hgone (nodeId_inj_right.mp heq ▸ hname)
    rw [hid] at hids ⊢
    exact ⟨hids, hu.reports.add (n := .ofFunction (nodeId path f.name) path f) hold hfree.2 rfl,
      hu.removed⟩
  | move name id line hid =>
    exact ⟨hids, hu.reports.retouch (.moveFunction u.graph path name line) _ _, hu.removed⟩
  | note name => exact ⟨hids, hu.reports.retouch (.refl u.graph) _ _, hu.removed⟩
  | unlink caller callee source target =>
    exact ⟨hids, hu.reports.retouch (.filterEdges u.graph _) _ _, hu.removed⟩
  | link caller callee source target => exact hu.link source target

theorem IdsRight.reports_applyDiff (hg : g.IdsRight) (hplain : new.HasPlainNames)
    (hapart : ∀ name ∈ diff.removedFunctions, name ∉ diff.addedFunctions)
    (h : g.applyDiff diff new path = .ok u) : u.graph.IdsRight ∧ u.patch.Reports g u.graph := by
  have hstart : Update.Accounts g diff path ⟨g, .empty⟩ :=
    ⟨hg, Patch.reports_empty g, fun id hid => absurd hid List.not_mem_nil⟩
  obtain ⟨v, hv, rfl⟩ := exists_of_applyDiff hstart
    (fun u v halters hu => halters.accounts hplain hapart hu) h
  have hids := hv.idsRight.nodup_nodeIds
  unfold Update.finish
  split
  next => exact ⟨hv.idsRight, hv.reports⟩
  next hsome =>
    refine ⟨hv.idsRight.congr (map_key_refreshEndpoints hids), ?_⟩
    exact hv.reports.refreshEndpoints hids (by simpa using hsome)

/-- The flags are right after a difference, refreshed or not: without a node or an edge that comes or
goes, they have been right before. -/
theorem WellFormed.flagsRight_applyDiff (hg : g.WellFormed) (hflags : g.FlagsRight)
    (hplain : new.HasPlainNames) (hapart : ∀ name ∈ diff.removedFunctions, name ∉ diff.addedFunctions)
    (h : g.applyDiff diff new path = .ok u) : u.graph.FlagsRight := by
  have hreports := (hg.idsRight.reports_applyDiff hplain hapart h).2
  obtain ⟨v, hv, rfl⟩ := exists_of_applyDiff (P := fun u => u.graph.WellFormed) hg
    (fun u v halters hu => halters.wellFormed hplain hu) h
  cases hempty : v.patch.isEmpty with
  | true =>
    have hfinish : v.finish = v := by simp [Update.finish, hempty]
    rw [hfinish] at hreports ⊢
    exact (hreports.of_isEmpty hempty).flagsRight hflags
  | false =>
    have hfinish : v.finish.graph = v.graph.refreshEndpoints := by simp [Update.finish, hempty]
    rw [hfinish]
    exact hv.flagsRight_refreshEndpoints

end ApplyDiff

/-! ## Files that come and go -/

section Files

variable {g file : Graph} {path : String}

/-- A file that has had no nodes is reported node by node and edge by edge. -/
theorem IdsRight.reports_mergeFile (hg : g.IdsRight) (hfile : g.hasFile path = false)
    (hnew : file.IdsRight) (hfiles : ∀ n ∈ file.nodes, n.source.file = path)
    (hpending : ∀ n ∈ file.nodes, n.pending = true) :
    (g.mergeFile path file).graph.IdsRight ∧
      (g.mergeFile path file).patch.Reports g (g.mergeFile path file).graph := by
  have hboth : IdsRight ⟨g.nodes ++ file.nodes, g.edges⟩ := by
    refine hg.append hnew fun m hm n hn heq => ?_
    exact not_shows_of_not_hasFile hfile ⟨m, hm, heq.trans (hfiles n hn), rfl⟩
  have hnodes := g.nodes_mergeFile path file
  have hedges := g.prefix_edges_mergeFile path file
  rw [removeFile_of_not_hasFile hfile] at hnodes hedges
  have hids : (g.mergeFile path file).graph.nodeIds = g.nodeIds ++ file.nodeIds := by
    rw [nodeIds, hnodes, List.map_append, nodeIds, nodeIds]
  have hdisjoint : g.nodeIds.Disjoint file.nodeIds := by
    have hnodup := hboth.nodup_nodeIds
    rw [nodeIds, List.map_append] at hnodup
    exact List.disjoint_of_nodup_append hnodup
  have hpatch : (g.mergeFile path file).patch = { Patch.empty with
      nodesAdded := file.nodeIds
      edgesAdded := (g.mergeFile path file).graph.edges.length - g.edges.length
      needsMetadata := file.pendingIds } := by
    simp only [mergeFile, removeFile_of_not_hasFile hfile, fileNodes_of_not_hasFile hfile, Nat.sub_self]
    rfl
  refine ⟨hboth.congr (by rw [hnodes]), ?_⟩
  rw [hpatch]
  refine ⟨?_, List.nodup_nil, hnew.nodup_nodeIds, List.nil_subset _, fun id hid hold => hdisjoint hold hid,
    ?_, ?_, fun n hn hid => ?_, fun hempty => ?_⟩
  · simp [hids, Patch.empty]
  · have hle := hedges.length_le
    simp only [Patch.empty]
    omega
  · simp only [pendingIds, nodeIds, List.filter_eq_self.mpr hpending]
  · rw [hnodes, List.mem_append] at hn
    refine hn.elim (fun hn => ?_) (hpending n)
    exact absurd hid (hdisjoint (List.mem_map_of_mem hn))
  -- With an empty patch the file has no nodes, and as many edges are there as before.
  · simp only [Patch.isEmpty, Bool.and_eq_true, List.isEmpty_iff, beq_iff_eq, nodeIds, List.map_eq_nil_iff,
      Nat.sub_eq_zero_iff_le] at hempty
    refine ⟨(hedges.sublist.eq_of_length_le hempty.1.2).symm, ?_⟩
    rw [hnodes, hempty.1.1.1, List.append_nil]

/-- A file that goes is reported with all its nodes, and with the edges that touch them. -/
theorem IdsRight.reports_removeFile (hg : g.IdsRight) (path : String) :
    Patch.Reports { Patch.empty with
      nodesRemoved := (g.fileNodes path).map (·.id)
      edgesRemoved := g.edges.length - (g.removeFile path).edges.length } g (g.removeFile path) := by
  have hids : ((g.fileNodes path).map (·.id)).Sublist g.nodeIds := List.filter_sublist.map _
  refine ⟨?_, hg.nodup_nodeIds.sublist hids, List.nodup_nil, hids.subset, fun id hid => ?_, ?_, rfl,
    fun n _ hid => ?_, fun hempty => ?_⟩
  · simp only [Graph.removeFile, foldl_removeNode, nodeIds, List.filter_map, Patch.empty, List.append_nil]
    rfl
  · cases hid
  · have hle := (g.sublist_edges_removeFile path).length_le
    simp only [Patch.empty]
    omega
  · cases hid
  · simp only [Patch.isEmpty, Bool.and_eq_true, List.isEmpty_iff] at hempty
    simp [Graph.removeFile, hempty.1.1.2, SameButLines.refl]

end Files

end Graph

end Flowgraph
