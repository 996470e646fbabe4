import Flowgraph.Proofs.Batcher
import Flowgraph.Proofs.Store.Classification
import Flowgraph.Proofs.Store.Contents
import Flowgraph.Proofs.Store.Reports
import Flowgraph.Proofs.Store.Updating

/-!
# Pending nodes of a store

A node that is pending after an update is one that the patch adds, or was pending before. What is asked
of a classifier covers all pending nodes of a batch.
-/

namespace Flowgraph

namespace Graph

variable {g h : Graph} {n : Node}

/-- A pending node of `h` that `g` has too, under its id and of its file. -/
def WasPending (g : Graph) (n : Node) : Prop :=
  ∃ m ∈ g.nodes, m.id = n.id ∧ m.source.file = n.source.file ∧ m.pending = true

/-- Where classified nodes are retained, one that is pending was pending before. -/
theorem Retains.wasPending {P : String → String → Prop} (hr : g.Retains h P) (hg : g.IdsRight)
    (hh : h.IdsRight) (hn : n ∈ h.nodes) (hpending : n.pending = true) (hold : n.id ∈ g.nodeIds)
    (hP : P n.source.file n.source.function) : g.WasPending n := by
  obtain ⟨m, hm, hid⟩ := List.mem_map.mp hold
  have hplace := hid
  rw [hg.id_eq m hm, hh.id_eq n hn, nodeId_inj (hg.plain m hm) (hh.plain n hn)] at hplace
  refine ⟨m, hm, hid, hplace.1, ?_⟩
  by_contra hnot
  -- The classified node would be there in place of the pending one.
  obtain ⟨line, hmoved⟩ := hr.kept m hm (Bool.eq_false_iff.mpr hnot)
    (by rw [hplace.1, hplace.2]; exact hP)
  have hsame : m.moveTo line = n :=
    List.inj_on_of_nodup_map hh.nodup_nodeIds hmoved hn hid
  rw [← hsame] at hpending
  exact hnot hpending

end Graph

namespace Store

variable {s t : Store} {path content file id : String} {n : Node} {p : Patch}

/-! ## Updates and removals -/

section Parsers

variable [Parsers]

/-- A node of a file that has been updated stands for a function of its content, unless the update has
left the graph alone. -/
theorem InStep.contains_of_update (hs : s.InStep) (h : (Edit.update path content).apply s = .ok t)
    (hn : n ∈ t.graph.nodes) (hfile : n.source.file = path) :
    t.graph = s.graph ∨ (extract content path).contains n.source.function = true := by
  rcases hs.updates_cases (updates_of_apply h) with
    ⟨-, rfl⟩ | ⟨-, -, entry, -, rfl⟩ | ⟨entry, g, -, hg, rfl⟩
  · exact .inl rfl
  · exact .inl rfl
  · have hdraws := Graph.Draws.spliceFiles hg.wellFormed
      (Resolver.isProper_updateEntry hs.proper path entry)
      ((s.resolver.updateEntry path entry).affected.insert path).toList
    have hshows := (hdraws.mirrors hg.mirrors).mem_places
    exact .inr ((Graph.shows_iff_contains hshows).mp ⟨n, hn, hfile, rfl⟩)

/-- The nodes of other files are those from before. -/
theorem InStep.mem_nodeIds_of_update (hs : s.InStep) (h : (Edit.update path content).apply s = .ok t)
    (hn : n ∈ t.graph.nodes) (hfile : n.source.file ≠ path) : n.id ∈ s.graph.nodeIds := by
  have hid := (hs.edit h).wellFormed.id_eq n hn
  have hshows : s.graph.Shows n.source.file n.source.function := by
    have hshown : t.graph.Shows n.source.file n.source.function := ⟨n, hn, rfl, rfl⟩
    rcases hs.updates_cases (updates_of_apply h) with
      ⟨-, rfl⟩ | ⟨-, -, entry, -, rfl⟩ | ⟨entry, g, -, hg, rfl⟩
    · exact hshown
    · exact hshown
    · have hdraws := Graph.Draws.spliceFiles hg.wellFormed
        (Resolver.isProper_updateEntry hs.proper path entry)
        ((s.resolver.updateEntry path entry).affected.insert path).toList
      exact (hg.shows_iff hfile).mp (hdraws.shows_iff.mp hshown)
  obtain ⟨m, hm, hmfile, hmfunction⟩ := hshows
  rw [hid, ← hmfile, ← hmfunction, ← hs.wellFormed.id_eq m hm]
  exact List.mem_map_of_mem hm

/-- A node that is pending after an update is a new one of the file, or was pending before. -/
theorem InStep.pending_update (hs : s.InStep) (h : s.localUpdate path content = .ok (t, some p))
    (hn : n ∈ t.graph.nodes) (hpending : n.pending = true) :
    n.id ∈ p.nodesAdded ∧ n.source.file = path ∨ n.id ∉ p.nodesAdded ∧ s.graph.WasPending n := by
  have happly : (Edit.update path content).apply s = .ok t := apply_of_localUpdate h
  have ht := hs.edit happly
  have hreports := reports_of_localUpdate hs.wellFormed.idsRight h
  by_cases hadded : n.id ∈ p.nodesAdded
  · refine .inl ⟨hadded, ?_⟩
    by_contra hfile
    exact hreports.nodesAdded_new n.id hadded (hs.mem_nodeIds_of_update happly hn hfile)
  · have hold : n.id ∈ s.graph.nodeIds :=
      ((hreports.mem_nodeIds.mp (List.mem_map_of_mem hn)).resolve_right hadded).1
    refine .inr ⟨hadded, ?_⟩
    by_cases hfile : n.source.file = path
    · rcases hs.contains_of_update happly hn hfile with hsame | hcontains
      · exact ⟨n, hsame ▸ hn, rfl, rfl, hpending⟩
      · exact (hs.retains_edit happly).wasPending hs.wellFormed.idsRight ht.wellFormed.idsRight hn
          hpending hold fun _ => hcontains
    · exact (hs.retains_edit happly).wasPending hs.wellFormed.idsRight ht.wellFormed.idsRight hn
        hpending hold fun heq => absurd heq hfile

theorem InStep.pending_removeFile (hs : s.InStep) (hn : n ∈ (s.removeFile path).store.graph.nodes)
    (hpending : n.pending = true) : n.source.file ≠ path ∧ s.graph.WasPending n := by
  have ht := hs.removeFile path
  have hne : n.source.file ≠ path := by
    rintro rfl
    obtain ⟨calls, hcalls, -⟩ := ht.mirrors _ (Graph.hasFile_iff.mpr ⟨_, n, hn, rfl, rfl⟩)
    obtain ⟨g, hstore, -⟩ := store_removeFile s n.source.file
    simp [hstore] at hcalls
  have hreports := (reports_removeFile hs.wellFormed.idsRight path).2
  have hold : n.id ∈ s.graph.nodeIds := by
    have hid := hreports.mem_nodeIds.mp (List.mem_map_of_mem hn)
    rw [nodesAdded_removeFile] at hid
    exact (hid.resolve_right List.not_mem_nil).1
  exact ⟨hne, (hs.retains_removeFile path).wasPending hs.wellFormed.idsRight ht.wellFormed.idsRight hn
    hpending hold hne⟩

end Parsers

/-- A node that is pending after a classification was pending before. -/
theorem InStep.pending_classify (hs : s.InStep) {entries : List Classification}
    (hn : n ∈ (s.classify entries).1.graph.nodes) (hpending : n.pending = true) :
    s.graph.WasPending n := by
  simp only [Store.classify, Graph.nodes_classify hs.wellFormed.nodup_nodeIds] at hn
  obtain ⟨m, hm, rfl⟩ := List.mem_map.mp hn
  rcases m.classifyFirst_eq_or entries with heq | ⟨-, c, -, heq⟩
  · rw [heq] at hpending ⊢
    exact ⟨m, hm, rfl, rfl, hpending⟩
  · rw [heq] at hpending
    cases hpending

/-! ## Batches -/

theorem mem_getD_foldl_insert {nodes : List Node} {batch : PendingBatch} :
    id ∈ (nodes.foldl (fun (batch : PendingBatch) n => batch.insert n.source.file
        ((batch.getD n.source.file ∅).insert n.id)) batch).getD file ∅ ↔
      id ∈ batch.getD file ∅ ∨ ∃ n ∈ nodes, n.source.file = file ∧ n.id = id := by
  induction nodes generalizing batch with
  | nil => simp
  | cons n nodes ih =>
    rw [List.foldl_cons, ih, PendingBatch.mem_getD_insert, List.exists_mem_cons_iff]
    split
    next hfile =>
      subst hfile
      simp only [Std.ExtTreeSet.mem_insert, Std.LawfulEqCmp.compare_eq_iff_eq, true_and, or_assoc,
        or_left_comm]
    next hfile => simp [hfile]

/-- Every pending node is among the pending nodes of its file. -/
theorem mem_pendingByFile (hn : n ∈ s.graph.nodes) (hpending : n.pending = true) :
    n.id ∈ s.pendingByFile.getD n.source.file ∅ :=
  mem_getD_foldl_insert.mpr (.inr ⟨n, List.mem_filter.mpr ⟨hn, hpending⟩, rfl, rfl⟩)

/-- A pending node of a batch is asked for. -/
theorem InStep.mem_classificationRequest [Parsers] (hs : s.InStep) (hcoherent : s.Coherent)
    {batch : PendingBatch} (hn : n ∈ s.graph.nodes) (hpending : n.pending = true)
    (hbatch : n.id ∈ batch.getD n.source.file ∅) :
    ∃ f, (s.classificationRequest batch)[n.source.file]? = some f ∧ n.id ∈ f.nodeIds := by
  obtain ⟨calls, hcalls, -⟩ := hs.mirrors _ (Graph.hasFile_iff.mpr ⟨_, n, hn, rfl, rfl⟩)
  obtain ⟨content, hcontent, -⟩ : ∃ content, s.contents[n.source.file]? = some content ∧
      extract content n.source.file = calls := by
    rwa [hcoherent.callGraphs_eq, Option.map_eq_some_iff] at hcalls
  obtain ⟨ids, hids, hid⟩ := PendingBatch.exists_getElem?_of_mem_getD hbatch
  have hnode : n ∈ ids.toList.filterMap fun id => (s.graph.node? id).filter (·.pending) := by
    refine List.mem_filterMap.mpr ⟨n.id, Std.ExtTreeSet.mem_toList.mpr hid, ?_⟩
    rw [hs.wellFormed.idsRight.node?_eq_some.mpr ⟨hn, rfl⟩, Option.filter_some, if_pos hpending]
  rw [classificationRequest, Std.ExtTreeMap.getElem?_filterMap', hids, Option.bind_some]
  simp only [fileRequest?, hcalls, hcontent]
  rw [if_neg (mt List.isEmpty_iff.mp (List.ne_nil_of_mem hnode))]
  exact ⟨_, rfl, List.mem_map_of_mem hnode⟩

end Store

end Flowgraph
