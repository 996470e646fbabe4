import Flowgraph.Proofs.Graph.Frame

/-!
# Removed and added functions

A difference takes the first node of every function that it removes. Where an analysis has given a
function several, the others stay. Every function that it adds has a node afterwards, and every edge
still links two nodes.
-/

namespace Flowgraph

namespace Graph

variable {g h : Graph} {diff : CallGraphDiff} {old new : CallGraph} {path file function name id : String}
  {u v : Update}

/-! ## The nodes of a function -/

/-- The ids of the nodes of a function of a file. -/
def functionIds (g : Graph) (file function : String) : List String :=
  (g.nodes.filter (·.isOf file function)).map (·.id)

theorem mem_functionIds : id ∈ g.functionIds file function ↔
    ∃ n ∈ g.nodes, (n.source.file = file ∧ n.source.function = function) ∧ n.id = id := by
  simp only [functionIds, List.mem_map, List.mem_filter, isOf_iff, and_assoc]

theorem functionIds_eq_nil : g.functionIds file function = [] ↔ ¬ g.Shows file function := by
  simp only [functionIds, List.map_eq_nil_iff, List.filter_eq_nil_iff, isOf_iff, Shows, not_exists, not_and]

theorem functionNodeId?_eq_head? :
    g.functionNodeId? file function = (g.functionIds file function).head? := by
  rw [functionNodeId?, functionNode?, functionIds, List.head?_map, List.head?_filter]

theorem functionIds_congr (hkeys : h.nodes.map Node.key = g.nodes.map Node.key) :
    h.functionIds file function = g.functionIds file function := by
  have hids (k : Graph) : k.functionIds file function =
      ((k.nodes.map Node.key).filter fun key => key.2.1 == file && key.2.2 == function).map (·.1) := by
    rw [List.filter_map, List.map_map]
    rfl
  rw [hids, hids, hkeys]

theorem functionIds_removeNode (g : Graph) (id file function : String) :
    (g.removeNode id).functionIds file function = (g.functionIds file function).filter (· != id) := by
  simp only [functionIds, removeNode, List.filter_map, List.filter_filter]
  congr 1
  exact List.filter_congr fun n _ => Bool.and_comm _ _

theorem functionIds_addNode {n : Node} (hne : n.source.function ≠ function) :
    (g.addNode n).functionIds file function = g.functionIds file function := by
  have hnot : n.isOf file function = false := by
    rw [← Bool.not_eq_true, isOf_iff]
    exact fun hof => hne hof.2
  simp [functionIds, addNode, hnot]

/-- No node stands for two functions. -/
theorem not_mem_functionIds (hids : g.nodeIds.Nodup) {function' : String}
    (hid : id ∈ g.functionIds file function) (hne : function' ≠ function) :
    id ∉ g.functionIds file function' := by
  intro hid'
  obtain ⟨n, hn, ⟨-, rfl⟩, rfl⟩ := mem_functionIds.mp hid
  obtain ⟨m, hm, ⟨-, rfl⟩, heq⟩ := mem_functionIds.mp hid'
  rw [List.inj_on_of_nodup_map hids hm hn heq] at hne
  exact hne rfl

namespace Update

/-! ## Removing functions -/

theorem nodup_nodeIds_removeFunction (hids : u.graph.nodeIds.Nodup) (path name : String) :
    (u.removeFunction path name).graph.nodeIds.Nodup := by
  unfold removeFunction
  split
  · exact hids
  · exact hids.sublist (List.filter_sublist.map _)

/-- Removing a function takes its first node, and none of another function. -/
theorem functionIds_removeFunction (hids : u.graph.nodeIds.Nodup) (path name function : String) :
    (u.removeFunction path name).graph.functionIds path function =
      if function = name then (u.graph.functionIds path function).tail
      else u.graph.functionIds path function := by
  unfold removeFunction
  have hnodup : (u.graph.functionIds path name).Nodup := hids.sublist (List.filter_sublist.map _)
  rw [functionNodeId?_eq_head?]
  cases hfound : u.graph.functionIds path name with
  | nil =>
    show u.graph.functionIds path function = _
    split
    next hsame => rw [hsame, hfound, List.tail_nil]
    next => rfl
  | cons id rest =>
    show (u.graph.removeNode id).functionIds path function = _
    rw [functionIds_removeNode]
    split
    next hsame =>
      obtain ⟨hid, -⟩ := List.nodup_cons.mp (hfound ▸ hnodup)
      rw [hsame, hfound, List.tail_cons, List.filter_cons_of_neg (by simp)]
      exact List.filter_eq_self.mpr fun other hother => by
        simpa using ne_of_mem_of_not_mem hother hid
    next hne =>
      have hid : id ∉ u.graph.functionIds path function :=
        not_mem_functionIds hids (hfound ▸ List.mem_cons_self) hne
      exact List.filter_eq_self.mpr fun other hother => by
        simpa using ne_of_mem_of_not_mem hother hid

theorem functionIds_foldl_removeFunction {names : List String} (hids : u.graph.nodeIds.Nodup)
    (hnames : names.Nodup) (path function : String) :
    (names.foldl (removeFunction path) u).graph.functionIds path function =
      if function ∈ names then (u.graph.functionIds path function).tail
      else u.graph.functionIds path function := by
  induction names generalizing u with
  | nil => simp
  | cons name names ih =>
    obtain ⟨hname, hnames⟩ := List.nodup_cons.mp hnames
    rw [List.foldl_cons, ih (nodup_nodeIds_removeFunction hids path name) hnames,
      functionIds_removeFunction hids]
    -- A name that comes but once takes a node but once.
    by_cases hfirst : function = name
    · subst hfirst
      simp [hname]
    · simp [hfirst]

/-! ## After the removals -/

/-- A difference without the functions that it removes. -/
def withoutRemovals (diff : CallGraphDiff) : CallGraphDiff := { diff with removedFunctions := ∅ }

theorem renew_eq (u : Update) (diff : CallGraphDiff) (new : CallGraph) (path : String) :
    u.renew diff new path =
      (diff.removedFunctions.toList.foldl (removeFunction path) u).renew (withoutRemovals diff) new path :=
  rfl

theorem nodesAdded_foldl_removeFunction (u : Update) (path : String) (names : List String) :
    (names.foldl (removeFunction path) u).patch.nodesAdded = u.patch.nodesAdded := by
  refine List.foldlRecOn (motive := fun v : Update => v.patch.nodesAdded = u.patch.nodesAdded) names _ rfl
    fun v hv name _ => ?_
  unfold removeFunction
  split <;> exact hv

/-- After the removals, functions are renewed as by a difference that removes nothing. -/
theorem becomes_of_removed (hnone : u.patch.nodesAdded = []) (h : u.renew diff new path = .ok v) :
    Becomes (withoutRemovals diff) new path
      (diff.removedFunctions.toList.foldl (removeFunction path) u) v := by
  rw [renew_eq] at h
  exact becomes_renew ((nodesAdded_foldl_removeFunction u path _).trans hnone) h

theorem Alters.stays (h : Alters (withoutRemovals diff) new path u v) {n : Node}
    (hn : n ∈ u.graph.nodes) : ∃ m ∈ v.graph.nodes, n.Stays (withoutRemovals diff) new path m := by
  refine (h.stays_or_gone hn).resolve_right ?_
  rintro ⟨⟨name, hname, -⟩, -⟩
  exact Std.ExtTreeSet.not_mem_empty hname

theorem Becomes.shows (h : Becomes (withoutRemovals diff) new path u v)
    (hshows : u.graph.Shows file function) : v.graph.Shows file function := by
  induction h with
  | refl => exact hshows
  | tail _ halters ih =>
    obtain ⟨n, hn, hfile, hfunction⟩ := ih
    obtain ⟨m, hm, hstays⟩ := halters.stays hn
    exact ⟨m, hm, hstays.file_eq.trans hfile, hstays.function_eq.trans hfunction⟩

/-- A function that is not added keeps the nodes that the removals have left it. -/
theorem Becomes.functionIds_eq (h : Becomes (withoutRemovals diff) new path u v)
    (hname : name ∉ diff.addedFunctions) :
    v.graph.functionIds path name = u.graph.functionIds path name := by
  induction h with
  | refl => rfl
  | tail _ halters ih =>
    rw [← ih]
    cases halters with
    | drop _ _ hgone => exact absurd hgone Std.ExtTreeSet.not_mem_empty
    | add f hadded => exact functionIds_addNode fun heq => hname (heq ▸ hadded)
    | move => exact functionIds_congr map_key_moveFunction
    | note => rfl
    | unlink => rfl
    | link => exact functionIds_congr (by rw [graph_link, nodes_addEdge])

/-- Of a function that is removed and not added again, the first node goes. -/
theorem functionIds_of_renew (hids : u.graph.nodeIds.Nodup) (hnone : u.patch.nodesAdded = [])
    (h : u.renew diff new path = .ok v) (hname : name ∉ diff.addedFunctions) :
    v.graph.functionIds path name = if name ∈ diff.removedFunctions
      then (u.graph.functionIds path name).tail else u.graph.functionIds path name := by
  rw [(becomes_of_removed hnone h).functionIds_eq hname,
    functionIds_foldl_removeFunction hids (OrderedSet.nodup_toList _)]
  simp only [Std.ExtTreeSet.mem_toList]

/-! ## Added functions -/

theorem shows_of_addFunction (h : u.addFunction path new name = .ok v) : v.graph.Shows path name := by
  unfold addFunction at h
  cases hf : new.get? name with
  | none => simp [hf] at h
  | some f =>
    obtain rfl := CallGraph.name_of_get? hf
    simp only [hf] at h
    split at h
    next hshown =>
      cases h
      have hshows : u.graph.Shows path f.name := by
        by_contra hnot
        rw [functionNode?_eq_none.mpr hnot] at hshown
        cases hshown
      -- The node is there already, and at most moves.
      unfold touchFunction
      split
      · exact hshows
      · exact (shows_congr map_key_moveFunction).mpr hshows
    next =>
      cases h
      exact ⟨_, List.mem_append_right _ (List.mem_singleton_self _), rfl, rfl⟩

/-- Once a function has been added, nothing is removed any more. -/
theorem shows_of_renew (h : u.renew diff new path = .ok v) (hname : name ∈ diff.addedFunctions) :
    v.graph.Shows path name := by
  obtain ⟨w, hadds, hmodifies⟩ := Outcome.bind_eq_ok.mp h
  obtain ⟨before, after, x, y, hnames, -, hadd, hafter⟩ :=
    Outcome.exists_of_mem_of_foldlM (Std.ExtTreeSet.mem_toList.mpr hname) hadds
  have hadds' : Becomes (withoutRemovals diff) new path y w := by
    refine becomes_foldlM_addFunction (fun other hother => Std.ExtTreeSet.mem_toList.mp ?_) hafter
    rw [withoutRemovals, hnames]
    exact List.mem_append_right _ (List.mem_cons_of_mem _ hother)
  have hmodifies' : Becomes (withoutRemovals diff) new path w v :=
    becomes_foldlM_modifyFunction (fun other => Std.ExtTreeSet.mem_toList.mp) hmodifies
  exact Becomes.shows (hadds'.trans hmodifies') (shows_of_addFunction hadd)

/-! ## Ends of edges -/

theorem Alters.closed (h : Alters diff new path u v) (hu : u.graph.Closed) : v.graph.Closed := by
  cases h with
  | drop name id => exact hu.removeNode id
  | add =>
    exact fun e he => (hu e he).imp (containsNode_mono (List.subset_append_left _ _))
      (containsNode_mono (List.subset_append_left _ _))
  | move => exact hu.congr map_key_moveFunction (List.Subset.refl _)
  | note => exact hu
  | unlink => exact hu.congr rfl (List.filter_subset_self _)
  | link caller callee source target hcall hne hs ht =>
    intro e he
    rw [graph_link] at he ⊢
    have hkeys : (u.graph.addEdge (.unresolved source target)).nodes.map Node.key =
        u.graph.nodes.map Node.key := by rw [nodes_addEdge]
    rw [containsNode_congr hkeys, containsNode_congr hkeys]
    rcases mem_edges_addEdge he with hold | rfl
    · exact hu e hold
    · exact ⟨containsNode_of_functionNodeId? hs, containsNode_of_functionNodeId? ht⟩

theorem Becomes.closed (h : Becomes diff new path u v) (hu : u.graph.Closed) : v.graph.Closed := by
  induction h with
  | refl => exact hu
  | tail _ halters ih => exact halters.closed ih

theorem Becomes.nodup_nodeIds (h : Becomes diff new path u v) (hu : u.graph.nodeIds.Nodup) :
    v.graph.nodeIds.Nodup := by
  induction h with
  | refl => exact hu
  | tail _ halters ih => exact halters.nodup_nodeIds ih

end Update

/-! ## Whole differences -/

/-- The difference of two call graphs takes the first node of every function that it removes, so that
none is left just where there is no other. It leaves no edge without its ends, and every function that it
adds with a node. -/
theorem removed_and_added_of_applyDiff (hids : g.nodeIds.Nodup) (hclosed : g.Closed)
    (old new : CallGraph) (path : String) :
    ∃ u, g.applyDiff (old.diff new) new path = .ok u ∧
      (∀ name ∈ (old.diff new).removedFunctions,
        u.graph.functionIds path name = (g.functionIds path name).tail ∧
        (¬ u.graph.Shows path name ↔ (g.functionIds path name).length ≤ 1)) ∧
      u.graph.Closed ∧ ∀ name ∈ (old.diff new).addedFunctions, u.graph.Shows path name := by
  obtain ⟨u, hu⟩ := exists_applyDiff_diff g old new path
  refine ⟨u, hu, ?_⟩
  obtain ⟨v, hv, hrenewed, hwhole, rfl⟩ := exists_renew_of_applyDiff hu
  -- Which nodes there are is settled once the functions have been renewed.
  have hkeys := Update.map_key_finish_relink (hrenewed.nodup_nodeIds hids) (old.diff new) new path
  refine ⟨fun name hname => ?_, ?_, fun name hname => ?_⟩
  · have hleft : (v.relink (old.diff new) new path).finish.graph.functionIds path name =
        (g.functionIds path name).tail := by
      rw [functionIds_congr hkeys, Update.functionIds_of_renew hids rfl hv
        (CallGraph.not_mem_addedFunctions_of_mem_removedFunctions hname), if_pos hname]
    refine ⟨hleft, ?_⟩
    rw [← functionIds_eq_nil, hleft, ← List.length_eq_zero_iff, List.length_tail, Nat.sub_eq_zero_iff_le]
  · have hids' := hwhole.nodup_nodeIds hids
    refine (hwhole.closed hclosed).congr (Update.map_key_finish hids') ?_
    rw [Update.edges_finish hids']
    exact List.Subset.refl _
  · exact (shows_congr hkeys).mpr (Update.shows_of_renew hv hname)

set_option maxRecDepth 10000 in
/-- Of two functions that go, one has two nodes and keeps the second. The function that comes has one. -/
theorem removed_and_added_of_applyDiff_of_two_nodes :
    let g : Graph := ⟨[⟨"a.py::f", "Ask", "llm", ⟨"a.py", 1, "f"⟩, true, false, false, none⟩,
        ⟨"a.py::f::2", "Retry", "llm", ⟨"a.py", 2, "f"⟩, false, false, false, none⟩,
        .ofFunction "a.py::h" "a.py" ⟨"h", 6, 7, []⟩],
      [⟨"a.py::f", "a.py::f::2", "on failure", none, none, none⟩, .unresolved "a.py::f::2" "a.py::h"]⟩
    let old := CallGraph.ofList [⟨"f", 1, 4, ["h"]⟩, ⟨"h", 6, 7, []⟩]
    let new := CallGraph.ofList [⟨"k", 1, 2, []⟩]
    g.nodeIds.Nodup ∧ g.Closed ∧
      ∃ u, g.applyDiff (old.diff new) new "a.py" = .ok u ∧
        u.graph.functionIds "a.py" "f" = ["a.py::f::2"] ∧ u.graph.functionIds "a.py" "h" = [] ∧
        u.graph.Shows "a.py" "k" := by
  intro g old new
  have hids : g.nodeIds.Nodup := by decide
  have hclosed : g.Closed := by decide
  obtain ⟨u, hu, hremoved, -, hadded⟩ := removed_and_added_of_applyDiff hids hclosed old new "a.py"
  refine ⟨hids, hclosed, u, hu, ?_, ?_, hadded "k" (by decide +kernel)⟩
  · exact (hremoved "f" (by decide +kernel)).1
  · exact (hremoved "h" (by decide +kernel)).1

set_option maxRecDepth 10000 in
/-- A function that is removed can leave a node behind, where an analysis has given it two. -/
theorem exists_node_of_removed_function :
    ∃ (g : Graph) (old new : CallGraph) (path name : String) (u : Update), g.nodeIds.Nodup ∧ g.Closed ∧
      g.applyDiff (old.diff new) new path = .ok u ∧ name ∈ (old.diff new).removedFunctions ∧
      u.graph.Shows path name := by
  let g : Graph := ⟨[⟨"a.py::f", "Ask", "llm", ⟨"a.py", 1, "f"⟩, true, false, false, none⟩,
    ⟨"a.py::f::2", "Retry", "llm", ⟨"a.py", 2, "f"⟩, false, true, false, none⟩],
    [⟨"a.py::f", "a.py::f::2", "on failure", none, none, none⟩]⟩
  let old := CallGraph.ofList [⟨"f", 1, 4, ["client.ask"]⟩]
  obtain ⟨u, hu, hnodes⟩ := Outcome.exists_of_map_toOption
    (f := fun u : Update => u.graph.nodes.any (·.isOf "a.py" "f")) (b := true)
    (x := g.applyDiff (old.diff .empty) .empty "a.py") (by decide +kernel)
  refine ⟨g, old, .empty, "a.py", "f", u, by decide, by decide, hu, by decide +kernel, ?_⟩
  obtain ⟨n, hn, hof⟩ := List.any_eq_true.mp hnodes
  exact ⟨n, hn, isOf_iff.mp hof⟩

end Graph

end Flowgraph
