import Flowgraph.Graph.Classification
import Flowgraph.Proofs.Graph.Altering
import Flowgraph.Proofs.Graph.Drawing
import Mathlib.Data.List.Induction

/-!
# Classified nodes

What a classification makes of each node, and that no other change of a graph classifies a node, gives
a classified one up, or touches more of it than its line.
-/

namespace Flowgraph

namespace Node

variable {n : Node} {c : Classification} {entries : List Classification}

/-- The node after a classification: a pending one takes the first entry with its id. -/
def classifyFirst (entries : List Classification) (n : Node) : Node :=
  if n.pending = true then
    match entries.find? (·.id == n.id) with
    | some c => n.classify c
    | none => n
  else n

theorem classifyFirst_nil (n : Node) : n.classifyFirst [] = n := by
  unfold classifyFirst
  split <;> rfl

theorem classifyFirst_of_not_pending (hn : n.pending = false) : n.classifyFirst entries = n := by
  unfold classifyFirst
  rw [hn, if_neg Bool.false_ne_true]

theorem classifyFirst_cons (c : Classification) (entries : List Classification) (n : Node) :
    n.classifyFirst (c :: entries) =
      if n.pending = true ∧ n.id = c.id then n.classify c else n.classifyFirst entries := by
  unfold classifyFirst
  by_cases hid : n.id = c.id
  · by_cases hpending : n.pending = true
    · simp [hid, hpending]
    · simp [hpending]
  · have hne : (c.id == n.id) = false := by simpa using Ne.symm hid
    simp [hid, hne]

/-- A node stays as it is, or is a pending one that an entry names. -/
theorem classifyFirst_eq_or (entries : List Classification) (n : Node) :
    n.classifyFirst entries = n ∨ n.pending = true ∧
      ∃ c, entries.find? (·.id == n.id) = some c ∧ n.classifyFirst entries = n.classify c := by
  unfold classifyFirst
  split
  next hpending =>
    split
    next c hc => exact .inr ⟨hpending, c, hc, rfl⟩
    next => exact .inl rfl
  next => exact .inl rfl

end Node

namespace Graph

variable {g h k : Graph} {path : String}

/-! ## Classifying -/

theorem map_nodes_apply {β : Type} {key : Node → β} {c : Classification}
    (hkey : ∀ n : Node, key (n.classify c) = key n) (r : Classified) :
    (r.apply c).graph.nodes.map key = r.graph.nodes.map key := by
  rw [Classified.apply]
  split
  next => rfl
  next =>
    split
    · exact map_updateFirst hkey r.graph.nodes
    · rfl

/-- A classification keeps what it does not give to a node. -/
theorem map_nodes_classify {β : Type} (key : Node → β)
    (hkey : ∀ (n : Node) (c : Classification), key (n.classify c) = key n) (g : Graph)
    (entries : List Classification) : (g.classify entries).graph.nodes.map key = g.nodes.map key :=
  List.foldlRecOn (motive := fun r : Classified => r.graph.nodes.map key = g.nodes.map key) entries _ rfl
    fun r hr c _ => (map_nodes_apply (hkey · c) r).trans hr

theorem edges_apply (r : Classified) (c : Classification) :
    (r.apply c).graph.edges = r.graph.edges := by
  rw [Classified.apply]
  split
  next => rfl
  next => split <;> rfl

theorem edges_classify (g : Graph) (entries : List Classification) :
    (g.classify entries).graph.edges = g.edges :=
  List.foldlRecOn (motive := fun r : Classified => r.graph.edges = g.edges) entries _ rfl
    fun r hr c _ => (edges_apply r c).trans hr

theorem nodes_apply {r : Classified} (hids : r.graph.nodeIds.Nodup) (c : Classification) :
    (r.apply c).graph.nodes =
      r.graph.nodes.map fun n => if n.pending = true ∧ n.id = c.id then n.classify c else n := by
  have hkeep (hnone : ∀ n ∈ r.graph.nodes, ¬ (n.pending = true ∧ n.id = c.id)) :
      r.graph.nodes = r.graph.nodes.map
        fun n => if n.pending = true ∧ n.id = c.id then n.classify c else n := by
    refine (List.map_id _).symm.trans (List.map_congr_left fun n hn => ?_)
    rw [if_neg (hnone n hn)]
    rfl
  unfold Classified.apply
  split
  next hnone =>
    refine hkeep fun n hn hboth => ?_
    exact List.find?_eq_none.mp hnone n hn (beq_iff_eq.mpr hboth.2)
  next m hm =>
    have hid : m.id = c.id :=
      beq_iff_eq.mp (List.find?_some (p := fun n : Node => n.id == c.id) hm)
    have hsame : ∀ n ∈ r.graph.nodes, n.id = c.id → n = m := fun n hn hid' =>
      List.inj_on_of_nodup_map hids hn (List.mem_of_find?_eq_some hm) (hid'.trans hid.symm)
    split
    next hpending =>
      rw [updateNode_eq_map hids]
      refine List.map_congr_left fun n hn => if_congr ?_ rfl rfl
      exact (and_iff_right_of_imp fun hid' => hsame n hn hid' ▸ hpending).symm
    next hdone => exact hkeep fun n hn hboth => hdone (hsame n hn hboth.2 ▸ hboth.1)

/-- Every pending node takes the first entry with its id, and nothing else changes. -/
theorem nodes_classify (hids : g.nodeIds.Nodup) (entries : List Classification) :
    (g.classify entries).graph.nodes = g.nodes.map (Node.classifyFirst entries) := by
  -- The induction is on the entries, from any ids that have been classified before.
  suffices hfold : ∀ r : Classified, r.graph.nodeIds.Nodup →
      (entries.foldl Classified.apply r).graph.nodes =
        r.graph.nodes.map (Node.classifyFirst entries) from hfold ⟨g, []⟩ hids
  induction entries with
  | nil =>
    intro r _
    exact (List.map_id _).symm.trans (List.map_congr_left fun n _ => n.classifyFirst_nil.symm)
  | cons c entries ih =>
    intro r hids
    have hids' : (r.apply c).graph.nodeIds.Nodup := by
      rw [nodeIds, map_nodes_apply (β := String) fun _ => rfl]
      exact hids
    rw [List.foldl_cons, ih _ hids', nodes_apply hids, List.map_map]
    refine List.map_congr_left fun n _ => ?_
    rw [Function.comp_apply, Node.classifyFirst_cons]
    split
    -- Once classified, a node takes no other entry.
    · exact Node.classifyFirst_of_not_pending rfl
    · rfl

/-- A classification that reports no node leaves the graph as it is. -/
theorem graph_classify_of_ids_eq_nil {entries : List Classification}
    (hnone : (g.classify entries).ids = []) : (g.classify entries).graph = g := by
  induction entries using List.reverseRecOn with
  | nil => rfl
  | append_singleton entries c ih =>
    have hlast : g.classify (entries ++ [c]) = (g.classify entries).apply c := by
      rw [classify, List.foldl_append]
      rfl
    rw [hlast] at hnone ⊢
    unfold Classified.apply at hnone ⊢
    split
    next hunknown =>
      simp only [hunknown] at hnone
      exact ih hnone
    next n hn =>
      simp only [hn] at hnone
      split
      next hpending => simp [hpending] at hnone
      next hdone =>
        rw [if_neg hdone] at hnone
        exact ih hnone

/-! ## Retaining -/

/-- From `g` to `h` no node is classified, and the classified nodes of the functions that satisfy `P`
are still there, on some line. -/
structure Retains (g h : Graph) (P : String → String → Prop) : Prop where
  kept : ∀ n ∈ g.nodes, n.pending = false → P n.source.file n.source.function →
    ∃ line, n.moveTo line ∈ h.nodes
  earned : ∀ n ∈ h.nodes, n.pending = false → ∃ m ∈ g.nodes, ∃ line, n = m.moveTo line

variable {P : String → String → Prop}

theorem retains_of_nodes_eq (hnodes : h.nodes = g.nodes) : g.Retains h P where
  kept n hn _ _ := ⟨n.source.line, hnodes ▸ hn⟩
  earned n hn _ := ⟨n, hnodes ▸ hn, n.source.line, rfl⟩

theorem SameButLines.retains (hgh : g.SameButLines h) : g.Retains h P where
  kept n hn _ _ := by
    obtain ⟨m, hm, hline⟩ := hgh.symm.exists_node hn
    exact ⟨m.source.line, by rw [hline]; exact hm⟩
  earned n hn _ := by
    obtain ⟨m, hm, hline⟩ := hgh.exists_node hn
    exact ⟨m, hm, _, hline⟩

/-- Nodes that come are pending, and nodes that go are not among those to be kept. -/
theorem retains_of_subset (hkept : ∀ n ∈ g.nodes, P n.source.file n.source.function → n ∈ h.nodes)
    (hnew : ∀ n ∈ h.nodes, n ∈ g.nodes ∨ n.pending = true) : g.Retains h P where
  kept n hn _ hP := ⟨n.source.line, hkept n hn hP⟩
  earned n hn hdone := by
    refine ⟨n, (hnew n hn).resolve_right fun hpending => ?_, n.source.line, rfl⟩
    rw [hdone] at hpending
    cases hpending

namespace Retains

theorem refl (g : Graph) : g.Retains g P := retains_of_nodes_eq rfl

theorem trans (hgh : g.Retains h P) (hhk : h.Retains k P) : g.Retains k P where
  kept n hn hdone hP := by
    obtain ⟨line, hmoved⟩ := hgh.kept n hn hdone hP
    exact hhk.kept (n.moveTo line) hmoved hdone hP
  earned n hn hdone := by
    obtain ⟨m, hm, line, rfl⟩ := hhk.earned n hn hdone
    obtain ⟨l, hl, line', rfl⟩ := hgh.earned m hm hdone
    exact ⟨l, hl, line, rfl⟩

theorem refreshEndpoints (hids : g.nodeIds.Nodup) : g.Retains g.refreshEndpoints P := by
  have hsame (n : Node) (hdone : n.pending = false) : g.refreshNode n = n := by
    rw [refreshNode, hdone, if_neg Bool.false_ne_true]
  rw [refreshEndpoints_eq hids]
  refine ⟨fun n hn hdone _ => ⟨n.source.line, ?_⟩, fun n hn hdone => ?_⟩
  · exact List.mem_map.mpr ⟨n, hn, hsame n hdone⟩
  · obtain ⟨m, hm, rfl⟩ := List.mem_map.mp hn
    rw [pending_refreshNode] at hdone
    exact ⟨m, hm, m.source.line, hsame m hdone⟩

theorem splice (hids : g.nodeIds.Nodup) (path : String) (calls : List CrossFileCall) :
    g.Retains (g.splice path calls).graph P := by
  rw [graph_splice]
  split
  · exact refl g
  · refine (retains_of_nodes_eq nodes_withDrawnEdges).trans (refreshEndpoints ?_)
    rwa [nodeIds_withDrawnEdges]

theorem spliceFiles {r : Resolver} (hg : g.WellFormed) (hr : r.IsProper) (files : List String) :
    g.Retains (g.spliceFiles r files) P := by
  induction files generalizing g with
  | nil => exact refl g
  | cons path files ih =>
    exact (splice hg.nodup_nodeIds path _).trans (ih (Draws.splice hg hr path).wellFormed)

end Retains

/-! ## Files that come and go -/

theorem retains_mergeFile {file : Graph} (hfile : g.hasFile path = false)
    (hpending : ∀ n ∈ file.nodes, n.pending = true) : g.Retains (g.mergeFile path file).graph P := by
  have hnodes : (g.mergeFile path file).graph.nodes = g.nodes ++ file.nodes := by
    rw [nodes_mergeFile, removeFile_of_not_hasFile hfile]
  refine retains_of_subset (fun n hn _ => ?_) fun n hn => ?_
  · rw [hnodes]
    exact List.mem_append_left _ hn
  · rw [hnodes, List.mem_append] at hn
    exact hn.imp_right (hpending n)

theorem WellFormed.retains_removeFile (hg : g.WellFormed) (path : String) :
    g.Retains (g.removeFile path) fun file _ => file ≠ path := by
  rw [Graph.removeFile, foldl_removeNode]
  refine retains_of_subset (fun n hn hne => List.mem_filter.mpr ⟨hn, ?_⟩) fun n hn => ?_
  · rw [Bool.not_eq_true', ← Bool.not_eq_true, List.contains_iff_mem, hg.mem_ids_fileNodes hn]
    exact hne
  · exact .inl (List.mem_of_mem_filter hn)

/-! ## Applying a difference -/

section ApplyDiff

variable {diff : CallGraphDiff} {new : CallGraph} {u v : Update}

theorem Update.Alters.retains (h : Update.Alters diff new path u v) (hu : u.graph.IdsRight)
    (hremoved : ∀ name ∈ diff.removedFunctions, new.contains name = false) :
    u.graph.Retains v.graph fun file function => file = path → new.contains function = true := by
  cases h with
  | drop name id hname hnone hid =>
    obtain ⟨hshows, rfl⟩ := hu.functionNodeId?_eq_some.mp hid
    -- A node to be kept is of another function than the one that goes, and so has another id.
    refine retains_of_subset (fun n hn hP => List.mem_filter.mpr ⟨hn, ?_⟩) fun n hn => ?_
    · obtain ⟨m, hm, hfile, hfunction⟩ := hshows
      rw [bne_iff_ne, hu.id_eq n hn, ne_eq, nodeId_inj (hu.plain n hn) (hfunction ▸ hu.plain m hm)]
      rintro ⟨hfile', hfunction'⟩
      have hstays := hP hfile'
      rw [hfunction', hremoved name hname] at hstays
      cases hstays
    · exact .inl (List.mem_of_mem_filter hn)
  | add f =>
    refine retains_of_subset (fun n hn _ => List.mem_append_left _ hn) fun n hn => ?_
    refine (List.mem_append.mp hn).imp_right fun hn => ?_
    rw [List.mem_singleton.mp hn]
    rfl
  | move name id line => exact (SameButLines.moveFunction u.graph path name line).retains
  | note => exact .refl _
  | unlink => exact retains_of_nodes_eq rfl
  | link => exact retains_of_nodes_eq (by rw [graph_link, nodes_addEdge])

/-- A difference gives up the nodes of functions that are gone, and no others. -/
theorem IdsRight.retains_applyDiff (hg : g.IdsRight) (hplain : new.HasPlainNames)
    (hremoved : ∀ name ∈ diff.removedFunctions, new.contains name = false)
    (h : g.applyDiff diff new path = .ok u) :
    g.Retains u.graph fun file function => file = path → new.contains function = true := by
  obtain ⟨v, ⟨hids, hv⟩, rfl⟩ := exists_of_applyDiff
    (P := fun u => u.graph.IdsRight ∧ g.Retains u.graph _) ⟨hg, .refl g⟩
    (fun u v halters ⟨hu, hretains⟩ =>
      ⟨halters.idsRight hplain hu, hretains.trans (halters.retains hu hremoved)⟩) h
  rcases v.finish_eq_or with heq | heq
  · rw [heq]
    exact hv
  · rw [heq]
    exact hv.trans (.refreshEndpoints hids.nodup_nodeIds)

end ApplyDiff

end Graph

end Flowgraph
