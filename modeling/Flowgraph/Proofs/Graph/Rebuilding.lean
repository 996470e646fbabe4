import Flowgraph.Proofs.Graph.Removal
import Flowgraph.Proofs.Graph.Reports

/-!
# Rebuilt files

Applying the difference of two call graphs to the graph made of the earlier one gives the graph made of
the later one, the order of nodes and edges apart. Nothing is asked of the names of the functions, since
all of them are of one file.
-/

namespace Flowgraph

namespace Graph

variable {g h : Graph} {diff : CallGraphDiff} {old new : CallGraph} {path name source target : String}
  {u v : Update}

/-! ## Graphs of one file, change by change -/

theorem OfFile.removeNode (hg : g.OfFile path) (id : String) : (g.removeNode id).OfFile path where
  nodup_nodeIds := hg.nodup_nodeIds.sublist (List.filter_sublist.map _)
  file_eq n hn := hg.file_eq n (List.mem_of_mem_filter hn)
  id_eq n hn := hg.id_eq n (List.mem_of_mem_filter hn)
  closed := hg.closed.removeNode id
  simple := hg.simple.sublist (List.filter_sublist.map _)

theorem OfFile.filterEdges (hg : g.OfFile path) (p : Edge → Bool) :
    OfFile { g with edges := g.edges.filter p } path where
  __ := hg
  closed := hg.closed.congr rfl (List.filter_subset_self _)
  simple := hg.simple.sublist (List.filter_sublist.map _)

/-- Within one file the id of its name is free for every function that has no node. -/
theorem OfFile.allocateId_eq (hg : g.OfFile path) (hnew : ¬ g.Shows path name) (line : Nat) :
    g.allocateId path name line = nodeId path name := by
  refine allocateId_of_free ?_
  rw [← Bool.not_eq_true, hg.containsNode_nodeId]
  exact hnew

namespace Update

theorem Alters.ofFile (h : Alters diff new path u v) (hu : u.graph.OfFile path) :
    v.graph.OfFile path := by
  have hids := h.nodup_nodeIds hu.nodup_nodeIds
  have hclosed := h.closed hu.closed
  cases h with
  | drop name id => exact hu.removeNode id
  | add f hname hf hnew =>
    have hnamed : ∀ n ∈ (u.graph.addNode (Node.ofFunction
        (u.graph.allocateId path f.name f.startLine) path f)).nodes,
        n.source.file = path ∧ n.id = nodeId n.source.file n.source.function := by
      intro n hn
      rcases List.mem_append.mp hn with hold | hcomes
      · exact ⟨hu.file_eq n hold, hu.id_eq n hold⟩
      · obtain rfl := List.mem_singleton.mp hcomes
        exact ⟨rfl, hu.allocateId_eq hnew f.startLine⟩
    exact ⟨hids, fun n hn => (hnamed n hn).1, fun n hn => (hnamed n hn).2, hclosed, hu.simple⟩
  | move => exact hu.congr map_key_moveFunction rfl
  | note => exact hu
  | unlink => exact hu.filterEdges _
  | link caller callee source target =>
    rw [graph_link] at hids hclosed ⊢
    have hnodes := nodes_addEdge u.graph (.unresolved source target)
    exact ⟨hids, hnodes ▸ hu.file_eq, hnodes ▸ hu.id_eq, hclosed, simple_addEdge hu.simple⟩

theorem Becomes.ofFile (h : Becomes diff new path u v) (hu : u.graph.OfFile path) :
    v.graph.OfFile path := by
  induction h with
  | refl => exact hu
  | tail _ halters ih => exact halters.ofFile ih

/-! ## Lines -/

/-- The nodes of a function do not leave its line again. -/
theorem Becomes.onLine (h : Becomes diff new path u v)
    (hu : ∀ n ∈ u.graph.nodes, n.source.function = name → n.OnLine new) :
    ∀ n ∈ v.graph.nodes, n.source.function = name → n.OnLine new := by
  induction h with
  | refl => exact hu
  | tail _ halters ih =>
    intro m hm hfunction
    rcases halters.stayed_or_comes hm with ⟨n, hn, hnm⟩ | ⟨-, hcomes⟩
    · exact hnm.onLine (ih n hn (hnm.function_eq ▸ hfunction))
    · exact hcomes.onLine

theorem onLine_of_modifyFunction (hu : u.graph.OfFile path)
    (h : u.modifyFunction path new name = .ok v) :
    ∀ n ∈ v.graph.nodes, n.source.function = name → n.OnLine new := by
  unfold modifyFunction at h
  cases hf : new.get? name with
  | none => simp [hf] at h
  | some f =>
    simp only [hf] at h
    cases h
    unfold touchFunction
    cases hid : u.graph.functionNodeId? path name with
    | none =>
      intro n hn hfunction
      exact absurd ⟨n, hn, hu.file_eq n hn, hfunction⟩ (functionNodeId?_eq_none.mp hid)
    | some id =>
      -- The function has no other node than the one that moves.
      have hnodes := updateFirst_eq_map (f := (·.moveTo f.startLine))
        (pairwise_isOf hu.nodup_nodeIds hu.id_eq path name)
      simp only [moveFunction, hnodes]
      intro m hm hfunction
      obtain ⟨n, hn, rfl⟩ := List.mem_map.mp hm
      by_cases hof : n.isOf path name = true
      · simp only [hof, if_true] at hfunction ⊢
        exact ⟨f, hfunction ▸ hf, rfl⟩
      · simp only [hof] at hfunction
        exact absurd (isOf_iff.mpr ⟨hu.file_eq n hn, hfunction⟩) hof

/-- A function that is modified is on its new line, and stays there. -/
theorem onLine_of_renew (hu : u.graph.OfFile path) (hnone : u.patch.nodesAdded = [])
    (h : u.renew diff new path = .ok v) (hname : name ∈ diff.modifiedFunctions) :
    ∀ n ∈ v.graph.nodes, n.source.function = name → n.OnLine new := by
  obtain ⟨w, hadds, hmodifies⟩ := Outcome.bind_eq_ok.mp h
  obtain ⟨before, after, x, y, hnames, hbefore, hmodify, hafter⟩ :=
    Outcome.exists_of_mem_of_foldlM (Std.ExtTreeSet.mem_toList.mpr hname) hmodifies
  have hmodified (name : String) (hname : name ∈ before ++ after) : name ∈ diff.modifiedFunctions := by
    rw [← Std.ExtTreeSet.mem_toList, hnames]
    exact List.mem_append.mpr ((List.mem_append.mp hname).imp_right (List.mem_cons_of_mem _))
  have hremoved : Becomes diff new path u (diff.removedFunctions.toList.foldl (removeFunction path) u) :=
    becomes_foldl_removeFunction (fun _ => Std.ExtTreeSet.mem_toList.mp) hnone
  have hadded := becomes_foldlM_addFunction (fun _ => Std.ExtTreeSet.mem_toList.mp) hadds
  have hstart : Becomes diff new path u x := (hremoved.trans hadded).trans
    (becomes_foldlM_modifyFunction (fun _ hname => hmodified _ (List.mem_append_left _ hname)) hbefore)
  have hrest : Becomes diff new path y v :=
    becomes_foldlM_modifyFunction (fun _ hname => hmodified _ (List.mem_append_right _ hname)) hafter
  exact hrest.onLine (onLine_of_modifyFunction (hstart.ofFile hu) hmodify)

/-! ## Edges -/

theorem edges_touchFunction (u : Update) (path : String) (f : FunctionInfo) (name : String) :
    (u.touchFunction path f name).graph.edges = u.graph.edges := by
  unfold touchFunction
  split <;> rfl

theorem edges_of_addFunction (h : u.addFunction path new name = .ok v) :
    v.graph.edges = u.graph.edges := by
  unfold addFunction at h
  split at h
  next => cases h
  next f hf =>
    split at h <;> cases h
    next => exact edges_touchFunction u path f name
    next => rfl

theorem edges_of_modifyFunction (h : u.modifyFunction path new name = .ok v) :
    v.graph.edges = u.graph.edges := by
  unfold modifyFunction at h
  split at h <;> cases h
  next f hf => exact edges_touchFunction u path f name

/-- A function that goes takes the edges of its node with it. -/
theorem hasEdge_removeFunction (hu : u.graph.OfFile path) :
    (u.removeFunction path name).graph.hasEdge source target = true ↔
      u.graph.hasEdge source target = true ∧ source ≠ nodeId path name ∧ target ≠ nodeId path name := by
  unfold removeFunction
  cases hid : u.graph.functionNodeId? path name with
  | none =>
    -- A function without a node has no edges either.
    refine iff_self_and.mpr fun hedge => ?_
    have hnot := mt hu.containsNode_nodeId.mp (functionNodeId?_eq_none.mp hid)
    obtain ⟨e, he, rfl, rfl⟩ := hasEdge_iff.mp hedge
    obtain ⟨hs, ht⟩ := hu.closed e he
    exact ⟨fun heq => hnot (heq ▸ hs), fun heq => hnot (heq ▸ ht)⟩
  | some id =>
    obtain ⟨-, rfl⟩ := hu.functionNodeId?_eq_some.mp hid
    exact hasEdge_removeNode

theorem ofFile_removeFunction (hu : u.graph.OfFile path) (name : String) :
    (u.removeFunction path name).graph.OfFile path := by
  unfold removeFunction
  split
  · exact hu
  · exact hu.removeNode _

theorem hasEdge_foldl_removeFunction (hu : u.graph.OfFile path) (names : List String) :
    (names.foldl (removeFunction path) u).graph.hasEdge source target = true ↔
      u.graph.hasEdge source target = true ∧
        ∀ name ∈ names, source ≠ nodeId path name ∧ target ≠ nodeId path name := by
  induction names generalizing u with
  | nil => simp
  | cons name names ih =>
    rw [List.foldl_cons, ih (ofFile_removeFunction hu name), hasEdge_removeFunction hu,
      List.forall_mem_cons, and_assoc]

theorem hasEdge_of_renew (hu : u.graph.OfFile path) (h : u.renew diff new path = .ok v) :
    v.graph.hasEdge source target = true ↔ u.graph.hasEdge source target = true ∧
      ∀ name ∈ diff.removedFunctions, source ≠ nodeId path name ∧ target ≠ nodeId path name := by
  obtain ⟨w, hadds, hmodifies⟩ := Outcome.bind_eq_ok.mp h
  have hedges : v.graph.edges =
      (diff.removedFunctions.toList.foldl (removeFunction path) u).graph.edges := by
    have hadded : w.graph.edges = _ := Outcome.foldlM_preserves
      (P := fun x : Update => x.graph.edges =
        (diff.removedFunctions.toList.foldl (removeFunction path) u).graph.edges)
      (fun _ _ _ hstep heq => (edges_of_addFunction hstep).trans heq) rfl hadds
    exact Outcome.foldlM_preserves (P := fun x : Update => x.graph.edges = _)
      (fun _ _ _ hstep heq => (edges_of_modifyFunction hstep).trans heq) hadded hmodifies
  rw [hasEdge_congr hedges, hasEdge_foldl_removeFunction hu]
  simp only [Std.ExtTreeSet.mem_toList]

/-! ## Empty patches -/

/-- While a patch is empty, nothing but lines has changed. -/
theorem Becomes.sameButLines (h : Becomes diff new path ⟨g, .empty⟩ v) (hempty : v.patch.isEmpty = true) :
    g.SameButLines v.graph := by
  induction h with
  | refl => exact .refl g
  | @tail u v _ halters ih =>
    cases halters with
    | drop => simp [Patch.isEmpty] at hempty
    | add => simp [Patch.isEmpty] at hempty
    | move name id line => exact (ih hempty).trans (.moveFunction u.graph path name line)
    | note => exact ih hempty
    | unlink caller callee source target =>
      simp only [Patch.isEmpty, Bool.and_eq_true, beq_iff_eq, Nat.add_eq_zero_iff] at hempty
      obtain ⟨hadded, hremoved, hnone⟩ := hempty
      have hbefore : u.patch.isEmpty = true := by
        simp [Patch.isEmpty, hadded, hremoved]
      exact (ih hbefore).trans ((Retouches.filterEdges u.graph _).same rfl hnone)
    | link caller callee source target =>
      unfold Update.link at hempty ⊢
      split at hempty
      next hlinked =>
        rw [if_pos hlinked]
        exact ih hempty
      next => simp [Patch.isEmpty] at hempty

end Update

/-! ## Renewed functions -/

/-- A function of a file has one node at most. -/
theorem OfFile.tail_functionIds (hg : g.OfFile path) (name : String) :
    (g.functionIds path name).tail = [] := by
  have hnodup : (g.functionIds path name).Nodup := hg.nodup_nodeIds.sublist (List.filter_sublist.map _)
  have hsame : ∀ id ∈ g.functionIds path name, id = nodeId path name := by
    intro id hid
    obtain ⟨n, hn, ⟨rfl, rfl⟩, rfl⟩ := mem_functionIds.mp hid
    exact hg.id_eq n hn
  match hids : g.functionIds path name with
  | [] => rfl
  | [_] => rfl
  | first :: second :: rest =>
    rw [hids] at hnodup hsame
    have hne : first ≠ second := (List.nodup_cons.mp hnodup).1 ∘ fun heq => heq ▸ List.mem_cons_self
    exact absurd ((hsame first (by simp)).trans (hsame second (by simp)).symm) hne

section Renewed

variable (hg : g.Depicts path old) (hu : Update.renew ⟨g, .empty⟩ (old.diff new) new path = .ok u)

include hg hu

theorem Depicts.shows_iff_of_renew : u.graph.Shows path name ↔ new.contains name = true := by
  by_cases hadded : name ∈ (old.diff new).addedFunctions
  · exact iff_of_true (Update.shows_of_renew hu hadded) (CallGraph.mem_addedFunctions.mp hadded).1
  · have hids := Update.functionIds_of_renew hg.nodup_nodeIds rfl hu hadded
    by_cases hremoved : name ∈ (old.diff new).removedFunctions
    · rw [if_pos hremoved, hg.tail_functionIds, functionIds_eq_nil] at hids
      refine iff_of_false hids ?_
      rw [(CallGraph.mem_removedFunctions.mp hremoved).2]
      exact Bool.false_ne_true
    -- What neither comes nor goes is in both call graphs or in none.
    · rw [if_neg hremoved] at hids
      rw [← not_iff_not, ← functionIds_eq_nil, hids, functionIds_eq_nil, not_iff_not, hg.shows_iff]
      rw [CallGraph.mem_addedFunctions] at hadded
      rw [CallGraph.mem_removedFunctions] at hremoved
      grind

/-- Every node is on its line in the later call graph: moved there, or there already. -/
theorem Depicts.onLine_of_renew : ∀ n ∈ u.graph.nodes, n.OnLine new := by
  intro n hn
  have hbecomes : Update.Becomes (old.diff new) new path ⟨g, .empty⟩ u := Update.becomes_renew rfl hu
  have hfile := (hbecomes.ofFile hg.toOfFile).file_eq n hn
  rcases (hbecomes.frames hg.nodup_nodeIds).stayed_or_comes n hn with ⟨m, hm, hmn⟩ | ⟨-, hcomes⟩
  · by_cases hmodified : n.source.function ∈ (old.diff new).modifiedFunctions
    · exact Update.onLine_of_renew hg.toOfFile rfl hu hmodified n hn rfl
    · obtain ⟨f, hf⟩ := CallGraph.contains_iff.mp ((hg.shows_iff_of_renew hu).mp ⟨n, hn, hfile, rfl⟩)
      obtain ⟨-, f', hf', hline⟩ := (hg.mem_places m.source).mp (List.mem_map_of_mem hm)
      rw [hmn.function_eq] at hf hmodified
      exact hmn.onLine ⟨f, hf, (CallGraph.startLine_eq_of_not_modified hf' hf hmodified).symm.trans hline⟩
  · exact hcomes.onLine

/-- Linking draws the calls of the later call graph. -/
theorem Depicts.hasEdge_relink_iff :
    (u.relink (old.diff new) new path).graph.hasEdge source target = true ↔
      ∃ caller callee, new.Links caller callee ∧ source = nodeId path caller ∧
        target = nodeId path callee := by
  have hbecomes : Update.Becomes (old.diff new) new path ⟨g, .empty⟩ u := Update.becomes_renew rfl hu
  have hfind (name id : String) : u.graph.functionNodeId? path name = some id ↔
      new.contains name = true ∧ id = nodeId path name := by
    rw [(hbecomes.ofFile hg.toOfFile).functionNodeId?_eq_some, hg.shows_iff_of_renew hu]
  rw [(u.relinks_relink (old.diff new) new path).hasEdge_iff_links hfind,
    Update.hasEdge_of_renew hg.toOfFile hu, hg.hasEdge_iff]
  have hstays {name : String} (hname : old.contains name = true)
      (hgone : name ∉ (old.diff new).removedFunctions) : new.contains name = true := by
    cases hnew : new.contains name with
    | true => rfl
    | false => exact absurd (CallGraph.mem_removedFunctions.mpr ⟨hname, hnew⟩) hgone
  constructor
  · rintro (⟨⟨⟨caller, callee, hlink, rfl, rfl⟩, hends⟩, hkept⟩ | ⟨caller, callee, -, hlink, hs, ht⟩)
    · have hcaller := hstays hlink.contains_caller fun hgone => (hends caller hgone).1 rfl
      have hcallee := hstays hlink.contains_callee fun hgone => (hends callee hgone).2 rfl
      refine ⟨caller, callee, (CallGraph.links_iff_stays_or_comes old new).mpr (.inl ?_), rfl, rfl⟩
      exact ⟨hlink, hcaller, hcallee, fun hgone =>
        hkept (caller, callee) hgone hlink.2.1 hcaller hcallee ⟨rfl, rfl⟩⟩
    · exact ⟨caller, callee, hlink, hs, ht⟩
  · rintro ⟨caller, callee, hlink, rfl, rfl⟩
    rcases (CallGraph.links_iff_stays_or_comes old new).mp hlink with
      ⟨hold, hcaller, hcallee, hkept⟩ | ⟨hnew, -⟩
    · obtain ⟨hends, hpairs⟩ := forall_ne_of_stays hcaller hcallee hkept path
      exact .inl ⟨⟨⟨caller, callee, hold, rfl, rfl⟩, hends⟩, fun p hgone _ _ _ => hpairs p hgone⟩
    · exact .inr ⟨caller, callee, hnew, hlink, rfl, rfl⟩

end Renewed

/-! ## Whole differences -/

/-- A graph that shows the earlier call graph shows the later one after their difference. -/
theorem Depicts.of_applyDiff (hg : g.Depicts path old)
    (h : g.applyDiff (old.diff new) new path = .ok u) : u.graph.Depicts path new := by
  have hframes := frames_of_applyDiff hg.nodup_nodeIds h
  obtain ⟨v, hv, hrenewed, hwhole, rfl⟩ := exists_renew_of_applyDiff h
  have hof := hwhole.ofFile hg.toOfFile
  have hids := hof.nodup_nodeIds
  refine { hof.congr (Update.map_key_finish hids) (Update.edges_finish hids) with
    fresh := fun n hn => ?_
    flagsRight := ?_
    unnamed := fun e he => ?_
    mem_places := fun place => ?_
    hasEdge_iff := fun source target => ?_ }
  · rcases hframes.stayed_or_comes n hn with ⟨m, hm, hmn⟩ | ⟨-, hcomes⟩
    · exact hmn.isFresh (hg.fresh m hm)
    · exact hcomes.isFresh
  -- The flags are refreshed, or the edges they agree with are those of before.
  · unfold Update.finish
    split
    next hempty => exact (hwhole.sameButLines hempty).flagsRight hg.flagsRight
    next => exact flagsRight_refreshEndpoints hids
  · exact (hframes.mem_edges e he).elim (hg.unnamed e) And.left
  · rw [Update.places_finish hids, places, (v.relinks_relink (old.diff new) new path).nodes_eq, ← places]
    exact (hrenewed.ofFile hg.toOfFile).mem_places_iff (hg.onLine_of_renew hv)
      fun name => (hg.shows_iff_of_renew hv).mpr
  · rw [hasEdge_congr (Update.edges_finish hids), hg.hasEdge_relink_iff hv]

/-- Whatever the functions are called, the graph of a file is brought up to date by the difference of its
call graphs as if it were made of the later one, but for the order of its nodes and edges. -/
theorem applyDiff_ofCallGraph_perm (old new : CallGraph) (path : String) :
    ∃ u, (ofCallGraph old path).applyDiff (old.diff new) new path = .ok u ∧
      u.graph.nodes.Perm (ofCallGraph new path).nodes ∧
      u.graph.edges.Perm (ofCallGraph new path).edges := by
  obtain ⟨u, hu⟩ := exists_applyDiff_diff (ofCallGraph old path) old new path
  exact ⟨u, hu, ((depicts_ofCallGraph old path).of_applyDiff hu).perm (depicts_ofCallGraph new path)⟩

/-- The call of `g` is older than `g`, so that no edge of the difference is new. -/
example :
    let old := CallGraph.ofList [⟨"f", 1, 2, ["g"]⟩]
    let new := CallGraph.ofList [⟨"f", 1, 2, ["g"]⟩, ⟨"g", 4, 5, []⟩]
    ((ofCallGraph old "a.py").applyDiff (old.diff new) new "a.py").toOption.map (·.graph.edges) =
      some [.unresolved "a.py::f" "a.py::g"] := by
  decide +kernel

end Graph

end Flowgraph
