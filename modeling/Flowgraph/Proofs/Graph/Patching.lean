import Flowgraph.Proofs.Graph.FileGraph
import Flowgraph.Proofs.Outcome

/-!
# Applying a difference

Applying the difference of two call graphs to a graph whose part of a file is that of the earlier one
succeeds, and leaves the part of the later one.
-/

namespace Flowgraph

namespace Graph

namespace Update

variable {u v : Update} {path : String} {new : CallGraph}

/-! ## Removed functions -/

/-- `v` is `u` without the functions `names` of a file. -/
structure Removes (u v : Update) (path : String) (names : List String) : Prop where
  wellFormed : v.graph.WellFormed
  mem_places : ∀ place : Location, place ∈ v.graph.places ↔
    place ∈ u.graph.places ∧ ¬ (place.file = path ∧ place.function ∈ names)
  hasEdge_iff : ∀ source target, v.graph.hasEdge source target = true ↔
    u.graph.hasEdge source target = true ∧
      ∀ name ∈ names, source ≠ nodeId path name ∧ target ≠ nodeId path name
  edges_subset : v.graph.edges ⊆ u.graph.edges

theorem removes_removeFunction (hu : u.graph.WellFormed) (path : String) {name : String}
    (hplain : IsPlainName name) :
    Removes u (u.removeFunction path name) path [name] := by
  by_cases hshows : u.graph.Shows path name
  · simp only [removeFunction, hu.functionNodeId?_of_shows hshows]
    refine ⟨hu.removeNode _, fun place => ?_, fun source target => ?_,
      fun e he => List.mem_of_mem_filter he⟩
    · rw [mem_places_removeNode hu hplain, List.mem_singleton]
    · rw [hasEdge_removeNode]
      simp
  -- A function without a node has no edges either.
  · simp only [removeFunction, functionNodeId?_eq_none.mpr hshows]
    refine ⟨hu, fun place => ?_, fun source target => ?_, List.Subset.refl _⟩
    · rw [List.mem_singleton, iff_self_and]
      rintro hplace ⟨rfl, rfl⟩
      exact hshows (shows_iff_mem_places.mpr ⟨place.line, hplace⟩)
    · simp only [List.mem_singleton, forall_eq, iff_self_and]
      intro hedge
      obtain ⟨e, he, rfl, rfl⟩ := hasEdge_iff.mp hedge
      obtain ⟨hs, ht⟩ := hu.closed e he
      constructor
      · exact fun heq => hshows ((hu.containsNode_nodeId hplain).mp (heq ▸ hs))
      · exact fun heq => hshows ((hu.containsNode_nodeId hplain).mp (heq ▸ ht))

theorem removes_foldl_removeFunction (hu : u.graph.WellFormed) (path : String) {names : List String}
    (hplain : ∀ name ∈ names, IsPlainName name) :
    Removes u (names.foldl (removeFunction path) u) path names := by
  induction names generalizing u with
  | nil => exact ⟨hu, by simp, by simp, List.Subset.refl _⟩
  | cons name names ih =>
    have hfirst := removes_removeFunction hu path (hplain name List.mem_cons_self)
    have hrest := ih hfirst.wellFormed fun name hname => hplain name (List.mem_cons_of_mem _ hname)
    refine ⟨hrest.wellFormed, fun place => ?_, fun source target => ?_,
      List.Subset.trans hrest.edges_subset hfirst.edges_subset⟩
    · rw [List.foldl_cons, hrest.mem_places, hfirst.mem_places, List.mem_singleton, List.mem_cons]
      grind
    · rw [List.foldl_cons, hrest.hasEdge_iff, hfirst.hasEdge_iff]
      simp [and_assoc]

/-! ## Added functions -/

/-- `v` is `u` with nodes for the functions `names` of a call graph, which link nothing yet. -/
structure Adds (u v : Update) (path : String) (new : CallGraph) (names : List String) : Prop where
  wellFormed : v.graph.WellFormed
  mem_places : ∀ place : Location, place ∈ v.graph.places ↔ place ∈ u.graph.places ∨
    place.file = path ∧ place.function ∈ names ∧
      ∃ f, new.get? place.function = some f ∧ f.startLine = place.line
  edges_eq : v.graph.edges = u.graph.edges

theorem adds_addFunction (hu : u.graph.WellFormed) {name : String} (hplain : IsPlainName name)
    (hnew : new.contains name = true) (hshows : ¬ u.graph.Shows path name) :
    ∃ v, u.addFunction path new name = .ok v ∧ Adds u v path new [name] := by
  obtain ⟨f, hf⟩ := CallGraph.contains_iff.mp hnew
  have hname := CallGraph.name_of_get? hf
  refine ⟨_, by simp only [addFunction, hf, functionNode?_eq_none.mpr hshows]; rfl, ?_⟩
  have hnode := hu.addNode (n := Node.ofFunction (nodeId path name) path f)
    (by rw [Node.ofFunction, hname]) (hname.symm ▸ hplain) (hname.symm ▸ hshows)
  refine ⟨?_, fun place => ?_, rfl⟩
  · rw [hu.idsRight.allocateId_eq hplain hshows]
    exact hnode
  · rw [mem_places_addNode, List.mem_singleton]
    obtain ⟨file, line, function⟩ := place
    simp only [Node.ofFunction, Location.mk.injEq, hname]
    constructor
    · rintro (hplace | ⟨rfl, rfl, rfl⟩)
      · exact .inl hplace
      · exact .inr ⟨rfl, rfl, f, hf, rfl⟩
    · rintro (hplace | ⟨rfl, rfl, f', hf', rfl⟩)
      · exact .inl hplace
      · rw [hf, Option.some.injEq] at hf'
        exact .inr ⟨rfl, by rw [hf'], rfl⟩

theorem adds_foldlM_addFunction (hu : u.graph.WellFormed) {names : List String} (hnames : names.Nodup)
    (hplain : ∀ name ∈ names, IsPlainName name) (hnew : ∀ name ∈ names, new.contains name = true)
    (hshows : ∀ name ∈ names, ¬ u.graph.Shows path name) :
    ∃ v, names.foldlM (addFunction path new) u = .ok v ∧ Adds u v path new names := by
  induction names generalizing u with
  | nil => exact ⟨u, rfl, hu, by simp, rfl⟩
  | cons name names ih =>
    obtain ⟨hname, hnames⟩ := List.nodup_cons.mp hnames
    obtain ⟨v, hv, hfirst⟩ := adds_addFunction hu (hplain name List.mem_cons_self)
      (hnew name List.mem_cons_self) (hshows name List.mem_cons_self)
    -- The node that has come is not that of a later name.
    have hshows' : ∀ name' ∈ names, ¬ v.graph.Shows path name' := by
      intro name' hname' hshown
      obtain ⟨line, hplace⟩ := shows_iff_mem_places.mp hshown
      rcases (hfirst.mem_places _).mp hplace with hplace | ⟨-, hmem, -⟩
      · exact hshows name' (List.mem_cons_of_mem _ hname') (shows_iff_mem_places.mpr ⟨line, hplace⟩)
      · exact hname (List.mem_singleton.mp hmem ▸ hname')
    obtain ⟨w, hw, hrest⟩ := ih hfirst.wellFormed hnames
      (fun name hname => hplain name (List.mem_cons_of_mem _ hname))
      (fun name hname => hnew name (List.mem_cons_of_mem _ hname)) hshows'
    refine ⟨w, ?_, hrest.wellFormed, fun place => ?_, hrest.edges_eq.trans hfirst.edges_eq⟩
    · exact Outcome.foldlM_cons_eq_ok.mpr ⟨v, hv, hw⟩
    · rw [hrest.mem_places, hfirst.mem_places, List.mem_singleton, List.mem_cons]
      grind

/-! ## Modified functions -/

/-- `v` is `u` with the functions `names` on the lines of a call graph. -/
structure Moves (u v : Update) (path : String) (new : CallGraph) (names : List String) : Prop where
  keys_eq : v.graph.nodes.map Node.key = u.graph.nodes.map Node.key
  mem_places : ∀ place : Location, place ∈ v.graph.places ↔
    (place ∈ u.graph.places ∧ ¬ (place.file = path ∧ place.function ∈ names)) ∨
      (u.graph.Shows path place.function ∧ place.file = path ∧ place.function ∈ names ∧
        ∃ f, new.get? place.function = some f ∧ f.startLine = place.line)
  edges_eq : v.graph.edges = u.graph.edges

theorem Moves.shows_iff {names : List String} (hm : Moves u v path new names)
    {file function : String} : v.graph.Shows file function ↔ u.graph.Shows file function :=
  shows_congr hm.keys_eq

theorem moves_modifyFunction (hu : u.graph.WellFormed) (path : String) {name : String}
    (hnew : new.contains name = true) :
    ∃ v, u.modifyFunction path new name = .ok v ∧ Moves u v path new [name] := by
  obtain ⟨f, hf⟩ := CallGraph.contains_iff.mp hnew
  refine ⟨_, by simp only [modifyFunction, hf]; rfl, ?_⟩
  by_cases hshows : u.graph.Shows path name
  · simp only [touchFunction, hu.functionNodeId?_of_shows hshows]
    refine ⟨map_key_moveFunction, fun place => ?_, rfl⟩
    rw [mem_places_moveFunction hu, List.mem_singleton]
    refine or_congr_right ?_
    constructor
    · rintro ⟨-, rfl⟩
      exact ⟨hshows, rfl, rfl, f, hf, rfl⟩
    · obtain ⟨file, line, function⟩ := place
      rintro ⟨-, rfl, rfl, f', hf', rfl⟩
      rw [hf, Option.some.injEq] at hf'
      exact ⟨hshows, by rw [hf']⟩
  · simp only [touchFunction, functionNodeId?_eq_none.mpr hshows]
    refine ⟨rfl, fun place => ?_, rfl⟩
    rw [List.mem_singleton]
    constructor
    · refine fun hplace => .inl ⟨hplace, ?_⟩
      rintro ⟨rfl, rfl⟩
      exact hshows (shows_iff_mem_places.mpr ⟨place.line, hplace⟩)
    · rintro (⟨hplace, -⟩ | ⟨hshows', -, rfl, -⟩)
      · exact hplace
      · exact absurd hshows' hshows

theorem moves_foldlM_modifyFunction (hu : u.graph.WellFormed) (path : String) {names : List String}
    (hnew : ∀ name ∈ names, new.contains name = true) :
    ∃ v, names.foldlM (modifyFunction path new) u = .ok v ∧ Moves u v path new names := by
  induction names generalizing u with
  | nil => exact ⟨u, rfl, rfl, by simp, rfl⟩
  | cons name names ih =>
    obtain ⟨v, hv, hfirst⟩ := moves_modifyFunction hu path (hnew name List.mem_cons_self)
    obtain ⟨w, hw, hrest⟩ := ih (hu.congr hfirst.keys_eq hfirst.edges_eq)
      fun name hname => hnew name (List.mem_cons_of_mem _ hname)
    refine ⟨w, ?_, hrest.keys_eq.trans hfirst.keys_eq, fun place => ?_,
      hrest.edges_eq.trans hfirst.edges_eq⟩
    · exact Outcome.foldlM_cons_eq_ok.mpr ⟨v, hv, hw⟩
    · rw [hrest.mem_places, hfirst.shows_iff, hfirst.mem_places, List.mem_singleton, List.mem_cons]
      grind

/-! ## Removed calls -/

/-- `v` is `u` without the edges of the calls `pairs` within a file. -/
structure Unlinks (u v : Update) (path : String) (pairs : List StringPair) : Prop where
  nodes_eq : v.graph.nodes = u.graph.nodes
  hasEdge_iff : ∀ source target, v.graph.hasEdge source target = true ↔
    u.graph.hasEdge source target = true ∧ ∀ p ∈ pairs, '.' ∉ p.2.toList →
      ¬ (u.graph.functionNodeId? path p.1 = some source ∧
        u.graph.functionNodeId? path p.2 = some target)
  edges_sublist : v.graph.edges.Sublist u.graph.edges

theorem unlinks_removeCall (u : Update) (path : String) (p : StringPair) :
    Unlinks u (u.removeCall path p) path [p] := by
  -- No edge goes for a call that names a module or has an end without a node.
  have hskip (hnot : ∀ source target, '.' ∉ p.2.toList →
      ¬ (u.graph.functionNodeId? path p.1 = some source ∧
        u.graph.functionNodeId? path p.2 = some target)) : Unlinks u u path [p] := by
    refine ⟨rfl, fun source target => ?_, List.Sublist.refl _⟩
    rw [List.forall_mem_singleton, iff_self_and]
    exact fun _ => hnot source target
  unfold removeCall
  split
  next callee hsplit =>
    obtain ⟨rfl, hdot⟩ := Call.split_eq_none_iff.mp hsplit
    split
    next source target hs ht =>
      refine ⟨rfl, fun s t => ?_, List.filter_sublist⟩
      rw [hasEdge_removeEdge, List.forall_mem_singleton, hs, ht, Option.some.injEq, Option.some.injEq,
        eq_comm (a := source), eq_comm (a := target), forall_prop_of_true hdot]
    next hnone => exact hskip fun source target _ hboth => hnone source target hboth.1 hboth.2
  next hsplit =>
    exact hskip fun _ _ hdot => absurd (Call.split_eq_none_iff.mpr ⟨rfl, hdot⟩) (hsplit p.2)

theorem unlinks_foldl_removeCall (u : Update) (path : String) (pairs : List StringPair) :
    Unlinks u (pairs.foldl (removeCall path) u) path pairs := by
  induction pairs generalizing u with
  | nil => exact ⟨rfl, by simp, List.Sublist.refl _⟩
  | cons p pairs ih =>
    have hfirst := unlinks_removeCall u path p
    have hrest := ih (u.removeCall path p)
    refine ⟨hrest.nodes_eq.trans hfirst.nodes_eq, fun source target => ?_,
      hrest.edges_sublist.trans hfirst.edges_sublist⟩
    rw [List.foldl_cons, hrest.hasEdge_iff, hfirst.hasEdge_iff, List.forall_mem_singleton,
      List.forall_mem_cons, and_assoc]
    simp only [functionNodeId?_congr hfirst.nodes_eq]

/-! ## Added calls -/

theorem graph_link {source target : String} :
    (u.link source target).graph = u.graph.addEdge (.unresolved source target) := by
  by_cases hedge : u.graph.hasEdge source target = true
  · simp [link, Graph.addEdge, Edge.unresolved, hedge]
  · simp [link, hedge]

theorem graph_addCall (p : StringPair) :
    (u.addCall path new p).graph = Graph.addCall path new p.1 u.graph p.2 := by
  rw [addCall, Graph.addCall]
  cases fileCallee? new p.1 p.2 with
  | none => rfl
  | some callee =>
    simp only
    cases u.graph.functionNodeId? path p.1 with
    | none => rfl
    | some source =>
      cases u.graph.functionNodeId? path callee with
      | none => rfl
      | some target => exact graph_link

/-- The new edges of a difference are added one after another. -/
theorem extends_foldl_addCall (u : Update) (path : String) (new : CallGraph)
    (pairs : List StringPair) :
    Extends u.graph (pairs.foldl (addCall path new) u).graph fun source target =>
      ∃ p ∈ pairs, fileCallee? new p.1 p.2 = some p.2 ∧
        u.graph.functionNodeId? path p.1 = some source ∧
          u.graph.functionNodeId? path p.2 = some target := by
  refine Extends.foldl (f := Update.graph) fun p _ v hnodes => ?_
  rw [graph_addCall]
  refine (Extends.addCall v.graph path new p.1 p.2).congr fun source target => ?_
  simp only [functionNodeId?_congr hnodes]
  constructor
  · rintro ⟨callee, hcallee, hends⟩
    obtain rfl := (fileCallee?_eq_some.mp hcallee).1
    exact ⟨hcallee, hends⟩
  · exact fun hp => ⟨p.2, hp⟩

/-! ## Calls of an added function -/

theorem extends_linkCaller (u : Update) (path : String) (new : CallGraph) (name target : String)
    (f : FunctionInfo) :
    Extends u.graph (u.linkCaller path new name target f).graph fun s t =>
      (∃ call ∈ f.calls, fileCallee? new f.name call = some name) ∧
        u.graph.functionNodeId? path f.name = some s ∧ t = target := by
  unfold linkCaller
  by_cases hcalls : ∃ call ∈ f.calls, fileCallee? new f.name call = some name
  · rw [if_pos (by simpa using hcalls)]
    cases hcaller : u.graph.functionNodeId? path f.name with
    | none => exact (Extends.refl _).congr fun _ _ => by simp
    | some source =>
      rw [graph_link]
      refine (Extends.addEdge _ source target).congr fun s t => ?_
      rw [and_iff_right hcalls, Option.some.injEq, eq_comm (a := source)]
  · rw [if_neg (by simpa using hcalls)]
    exact (Extends.refl _).congr fun _ _ => by simp only [hcalls, false_and]

theorem extends_linkCallers (u : Update) (path : String) (new : CallGraph) (name : String) :
    Extends u.graph (u.linkCallers path new name).graph fun source target =>
      ∃ caller, new.Links caller name ∧ u.graph.functionNodeId? path caller = some source ∧
        u.graph.functionNodeId? path name = some target := by
  unfold linkCallers
  cases hname : u.graph.functionNodeId? path name with
  | none => exact (Extends.refl _).congr fun _ _ => by simp
  | some target =>
    refine (Extends.foldl (f := Update.graph) fun f _ v hnodes =>
      (extends_linkCaller v path new name target f).congr fun s t => by
        rw [functionNodeId?_congr hnodes]).congr fun s t => ?_
    simp only [links_iff_fileCallee?, CallGraph.mem_toList, Option.some.injEq, eq_comm (a := target)]
    constructor
    · rintro ⟨f, hf, hcall, hends⟩
      exact ⟨f.name, ⟨f, hf, hcall⟩, hends⟩
    · rintro ⟨caller, ⟨f, hf, hcall⟩, hends⟩
      obtain rfl := CallGraph.name_of_get? hf
      exact ⟨f, hf, hcall, hends⟩

/-- Every new function is linked to its callers, old and new. -/
theorem extends_foldl_linkCallers (u : Update) (path : String) (new : CallGraph)
    (names : List String) :
    Extends u.graph (names.foldl (linkCallers path new) u).graph fun source target =>
      ∃ name ∈ names, ∃ caller, new.Links caller name ∧
        u.graph.functionNodeId? path caller = some source ∧
          u.graph.functionNodeId? path name = some target := by
  refine Extends.foldl (f := Update.graph) fun name _ v hnodes =>
    (extends_linkCallers v path new name).congr fun source target => ?_
  simp only [functionNodeId?_congr hnodes]

/-! ## The end of an update -/

theorem finish_eq_or (u : Update) :
    u.finish.graph = u.graph ∨ u.finish.graph = u.graph.refreshEndpoints := by
  rw [finish]
  split
  · exact .inl rfl
  · exact .inr rfl

theorem edges_finish (hids : u.graph.nodeIds.Nodup) : u.finish.graph.edges = u.graph.edges := by
  rcases u.finish_eq_or with heq | heq
  · rw [heq]
  · rw [heq, edges_refreshEndpoints hids]

theorem map_key_finish (hids : u.graph.nodeIds.Nodup) :
    u.finish.graph.nodes.map Node.key = u.graph.nodes.map Node.key := by
  rcases u.finish_eq_or with heq | heq
  · rw [heq]
  · rw [heq, map_key_refreshEndpoints hids]

theorem places_finish (hids : u.graph.nodeIds.Nodup) : u.finish.graph.places = u.graph.places := by
  rcases u.finish_eq_or with heq | heq
  · rw [heq]
  · rw [heq, places_refreshEndpoints hids]

theorem wellFormed_finish (hu : u.graph.WellFormed) : u.finish.graph.WellFormed :=
  hu.congr (map_key_finish hu.nodup_nodeIds) (edges_finish hu.nodup_nodeIds)

/-! ## The two halves of a difference -/

/-- Brings the functions of a file up to a difference, and links nothing. -/
def renew (u : Update) (diff : CallGraphDiff) (new : CallGraph) (path : String) :
    Except UpdateError Update := do
  let u := diff.removedFunctions.toList.foldl (removeFunction path) u
  let u ← diff.addedFunctions.toList.foldlM (addFunction path new) u
  diff.modifiedFunctions.toList.foldlM (modifyFunction path new) u

/-- Brings the edges of a file up to a difference. -/
def relink (u : Update) (diff : CallGraphDiff) (new : CallGraph) (path : String) : Update :=
  let u := diff.removedEdges.toList.foldl (removeCall path) u
  let u := diff.addedEdges.toList.foldl (addCall path new) u
  diff.addedFunctions.toList.foldl (linkCallers path new) u

end Update

theorem applyDiff_eq (g : Graph) (diff : CallGraphDiff) (new : CallGraph) (path : String) :
    g.applyDiff diff new path =
      (Update.renew ⟨g, .empty⟩ diff new path).map fun u => (u.relink diff new path).finish := by
  simp only [applyDiff, Update.renew, bind, Except.bind]
  split
  next => rfl
  next u hu =>
    cases diff.modifiedFunctions.toList.foldlM (Update.modifyFunction path new) u with
    | error e => rfl
    | ok v => rfl

section Halves

variable {g : Graph} {u v u₁ u₂ u₃ : Update} {path : String} {old new : CallGraph}

/-! ## Renewed functions -/

/-- The nodes of a file after functions have been removed, added and moved. -/
theorem Mirrors.mem_places_moves (hold : g.Mirrors path old) {patch : Patch}
    (hremoved : Update.Removes ⟨g, patch⟩ u₁ path (old.diff new).removedFunctions.toList)
    (hadded : Update.Adds u₁ u₂ path new (old.diff new).addedFunctions.toList)
    (hmoved : Update.Moves u₂ u₃ path new (old.diff new).modifiedFunctions.toList)
    (line : Nat) (function : String) :
    (⟨path, line, function⟩ : Location) ∈ u₃.graph.places ↔
      ∃ f, new.get? function = some f ∧ f.startLine = line := by
  simp only [hmoved.mem_places, shows_iff_mem_places, hadded.mem_places, hremoved.mem_places,
    hold.mem_places, Std.ExtTreeSet.mem_toList, CallGraph.mem_removedFunctions,
    CallGraph.mem_addedFunctions, true_and]
  constructor
  · rintro (⟨⟨⟨f, hf, rfl⟩, hkept⟩ | ⟨-, hnew⟩, hmod⟩ | ⟨-, -, hnew⟩)
    · have hnew : new.contains function = true := by
        by_contra hgone
        exact hkept ⟨CallGraph.contains_iff.mpr ⟨f, hf⟩, by simpa using hgone⟩
      obtain ⟨f', hf'⟩ := CallGraph.contains_iff.mp hnew
      exact ⟨f', hf', (CallGraph.startLine_eq_of_not_modified hf hf' hmod).symm⟩
    · exact hnew
    · exact hnew
  · rintro ⟨f', hf', rfl⟩
    have hnew := CallGraph.contains_iff.mpr ⟨f', hf'⟩
    cases hget : old.get? function with
    | none =>
      have hgone : old.contains function = false := by
        rw [CallGraph.contains_eq_isSome, hget]
        rfl
      refine .inl ⟨.inr ⟨⟨hnew, hgone⟩, f', hf', rfl⟩, fun hmod => ?_⟩
      rw [(CallGraph.contains_of_mem_modifiedFunctions hmod).1] at hgone
      cases hgone
    | some f =>
      have hkept : ¬ (old.contains function = true ∧ new.contains function = false) := by
        simp [hnew]
      -- A function of both call graphs is still on its line, or has been moved to its new one.
      by_cases hmod : function ∈ (old.diff new).modifiedFunctions
      · exact .inr ⟨⟨f.startLine, .inl ⟨⟨f, rfl, rfl⟩, hkept⟩⟩, hmod, f', hf', rfl⟩
      · have hline := CallGraph.startLine_eq_of_not_modified hget hf' hmod
        exact .inl ⟨.inl ⟨⟨f, rfl, hline⟩, hkept⟩, hmod⟩

/-- `u` is `g` with the functions of a file as the later call graph has them. Edges only go with their
nodes. -/
structure Update.Renews (g : Graph) (u : Update) (path : String) (old new : CallGraph) : Prop where
  wellFormed : u.graph.WellFormed
  mem_places : ∀ line function, (⟨path, line, function⟩ : Location) ∈ u.graph.places ↔
    ∃ f, new.get? function = some f ∧ f.startLine = line
  mem_places_of_ne : ∀ place : Location, place.file ≠ path →
    (place ∈ u.graph.places ↔ place ∈ g.places)
  hasEdge_iff : ∀ source target, u.graph.hasEdge source target = true ↔
    g.hasEdge source target = true ∧
      ∀ name, old.contains name = true → new.contains name = false →
        source ≠ nodeId path name ∧ target ≠ nodeId path name
  edges_subset : u.graph.edges ⊆ g.edges

theorem Mirrors.exists_renew (hold : g.Mirrors path old) (hg : g.WellFormed)
    (hplain : new.HasPlainNames) (patch : Patch) :
    ∃ u, Update.renew ⟨g, patch⟩ (old.diff new) new path = .ok u ∧
      Update.Renews g u path old new := by
  have hremoves (name : String) (hname : name ∈ (old.diff new).removedFunctions.toList) :
      IsPlainName name :=
    hg.plain_of_shows (hold.shows_iff.mpr
      (CallGraph.mem_removedFunctions.mp (Std.ExtTreeSet.mem_toList.mp hname)).1)
  have hadds (name : String) (hname : name ∈ (old.diff new).addedFunctions.toList) :
      new.contains name = true ∧ old.contains name = false :=
    CallGraph.mem_addedFunctions.mp (Std.ExtTreeSet.mem_toList.mp hname)
  have hmodifies (name : String) (hname : name ∈ (old.diff new).modifiedFunctions.toList) :
      new.contains name = true :=
    (CallGraph.contains_of_mem_modifiedFunctions (Std.ExtTreeSet.mem_toList.mp hname)).2
  have hremoved := Update.removes_foldl_removeFunction (u := ⟨g, patch⟩) hg path hremoves
  -- A function that is added has no node yet, because the earlier call graph does not have it.
  have hnew (name : String) (hname : name ∈ (old.diff new).addedFunctions.toList) :
      ¬ ((old.diff new).removedFunctions.toList.foldl (Update.removeFunction path)
        ⟨g, patch⟩).graph.Shows path name := by
    intro hshows
    obtain ⟨line, hplace⟩ := shows_iff_mem_places.mp hshows
    have hshown := shows_iff_mem_places.mpr ⟨line, ((hremoved.mem_places _).mp hplace).1⟩
    exact Bool.false_ne_true ((hadds name hname).2.symm.trans (hold.shows_iff.mp hshown))
  obtain ⟨u₂, hu₂, hadded⟩ := Update.adds_foldlM_addFunction hremoved.wellFormed
    (OrderedSet.nodup_toList (old.diff new).addedFunctions)
    (fun name hname => hplain name (hadds name hname).1) (fun name hname => (hadds name hname).1) hnew
  obtain ⟨u₃, hu₃, hmoved⟩ := Update.moves_foldlM_modifyFunction hadded.wellFormed path hmodifies
  refine ⟨u₃, ?_, hadded.wellFormed.congr hmoved.keys_eq hmoved.edges_eq,
    hold.mem_places_moves hremoved hadded hmoved, fun place hfile => ?_, fun source target => ?_, ?_⟩
  · simp only [Update.renew, hu₂]
    exact hu₃
  · simp [hmoved.mem_places, hadded.mem_places, hremoved.mem_places, hfile]
  · rw [hasEdge_congr hmoved.edges_eq, hasEdge_congr hadded.edges_eq, hremoved.hasEdge_iff]
    simp only [Std.ExtTreeSet.mem_toList, CallGraph.mem_removedFunctions, and_imp]
  · rw [hmoved.edges_eq, hadded.edges_eq]
    exact hremoved.edges_subset

/-! ## Linked again -/

/-- `v` is `u` with the edges of a file as a difference leaves them. -/
structure Update.Relinks (u v : Update) (path : String) (diff : CallGraphDiff) (new : CallGraph) :
    Prop where
  nodes_eq : v.graph.nodes = u.graph.nodes
  hasEdge_iff : ∀ source target, v.graph.hasEdge source target = true ↔
    (u.graph.hasEdge source target = true ∧ ∀ p ∈ diff.removedEdges, '.' ∉ p.2.toList →
      ¬ (u.graph.functionNodeId? path p.1 = some source ∧
        u.graph.functionNodeId? path p.2 = some target)) ∨
    ∃ caller callee, ((caller, callee) ∈ diff.addedEdges ∧ fileCallee? new caller callee = some callee ∨
        callee ∈ diff.addedFunctions ∧ new.Links caller callee) ∧
      u.graph.functionNodeId? path caller = some source ∧
        u.graph.functionNodeId? path callee = some target
  unnamed : ∀ e ∈ v.graph.edges, e ∈ u.graph.edges ∨ e = .unresolved e.source e.target
  simple : (u.graph.edges.map fun e => (e.source, e.target)).Nodup →
    (v.graph.edges.map fun e => (e.source, e.target)).Nodup

theorem Update.relinks_relink (u : Update) (diff : CallGraphDiff) (new : CallGraph) (path : String) :
    u.Relinks (u.relink diff new path) path diff new := by
  rw [Update.relink]
  have hunlinked := unlinks_foldl_removeCall u path diff.removedEdges.toList
  generalize diff.removedEdges.toList.foldl (removeCall path) u = u₁ at hunlinked ⊢
  have hcalls := extends_foldl_addCall u₁ path new diff.addedEdges.toList
  generalize diff.addedEdges.toList.foldl (addCall path new) u₁ = u₂ at hcalls ⊢
  have hlinked := extends_foldl_linkCallers u₂ path new diff.addedFunctions.toList
  have hnodes₂ : u₂.graph.nodes = u.graph.nodes := hcalls.nodes_eq.trans hunlinked.nodes_eq
  refine ⟨hlinked.nodes_eq.trans hnodes₂, fun source target => ?_, fun e he => ?_, fun hu => ?_⟩
  · rw [hlinked.hasEdge_iff, hcalls.hasEdge_iff, hunlinked.hasEdge_iff, or_assoc]
    simp only [Std.ExtTreeSet.mem_toList, functionNodeId?_congr hunlinked.nodes_eq,
      functionNodeId?_congr hnodes₂]
    refine or_congr_right ?_
    -- An edge comes with its call, or with its callee where the call has been there before.
    constructor
    · rintro (⟨⟨caller, callee⟩, hnew, hcallee, hends⟩ | ⟨callee, hnew, caller, hlink, hends⟩)
      · exact ⟨caller, callee, .inl ⟨hnew, hcallee⟩, hends⟩
      · exact ⟨caller, callee, .inr ⟨hnew, hlink⟩, hends⟩
    · rintro ⟨caller, callee, ⟨hnew, hcallee⟩ | ⟨hnew, hlink⟩, hends⟩
      · exact .inl ⟨(caller, callee), hnew, hcallee, hends⟩
      · exact .inr ⟨callee, hnew, caller, hlink, hends⟩
  · rcases hlinked.unnamed e he with he | he
    · exact (hcalls.unnamed e he).imp_left fun he => hunlinked.edges_sublist.subset he
    · exact .inr he
  · exact hlinked.simple (hcalls.simple (hu.sublist (hunlinked.edges_sublist.map _)))

/-- Neither linking nor the end of an update changes which nodes there are. -/
theorem Update.map_key_finish_relink (hids : u.graph.nodeIds.Nodup) (diff : CallGraphDiff)
    (new : CallGraph) (path : String) :
    (u.relink diff new path).finish.graph.nodes.map Node.key = u.graph.nodes.map Node.key := by
  have hnodes := (u.relinks_relink diff new path).nodes_eq
  rw [map_key_finish (by rwa [nodeIds, hnodes]), hnodes]

/-- The edges after a difference of two call graphs, where the functions of the later one are found
under their ids. -/
theorem Update.Relinks.hasEdge_iff_links (hr : u.Relinks v path (old.diff new) new)
    (hfind : ∀ name id, u.graph.functionNodeId? path name = some id ↔
      new.contains name = true ∧ id = nodeId path name) (source target : String) :
    v.graph.hasEdge source target = true ↔
      (u.graph.hasEdge source target = true ∧
        ∀ p ∈ (old.diff new).removedEdges, '.' ∉ p.2.toList → new.contains p.1 = true →
          new.contains p.2 = true → ¬ (source = nodeId path p.1 ∧ target = nodeId path p.2)) ∨
      ∃ caller callee, ((caller, callee) ∈ (old.diff new).addedEdges ∨
          callee ∈ (old.diff new).addedFunctions) ∧ new.Links caller callee ∧
        source = nodeId path caller ∧ target = nodeId path callee := by
  rw [hr.hasEdge_iff]
  simp only [hfind]
  refine or_congr (and_congr_right fun _ => forall₂_congr fun p _ => forall_congr' fun _ => ?_) ?_
  · constructor
    · exact fun hnot hcaller hcallee hends => hnot ⟨⟨hcaller, hends.1⟩, hcallee, hends.2⟩
    · exact fun hnot hends => hnot hends.1.1 hends.2.1 ⟨hends.1.2, hends.2.2⟩
  · refine exists₂_congr fun caller callee => ?_
    constructor
    · rintro ⟨⟨hnew, hcallee⟩ | ⟨hnew, hlink⟩, ⟨-, hs⟩, -, ht⟩
      · obtain ⟨-, hdot, hne, hcontains⟩ := fileCallee?_eq_some.mp hcallee
        exact ⟨.inl hnew,
          ⟨CallGraph.mem_edges.mp (CallGraph.mem_addedEdges.mp hnew).1, hdot, hne, hcontains⟩, hs, ht⟩
      · exact ⟨.inr hnew, hlink, hs, ht⟩
    · rintro ⟨hnew, hlink, hs, ht⟩
      refine ⟨hnew.imp (fun hnew => ⟨hnew, ?_⟩) fun hnew => ⟨hnew, hlink⟩,
        ⟨hlink.contains_caller, hs⟩, hlink.contains_callee, ht⟩
      exact fileCallee?_eq_some.mpr ⟨rfl, hlink.2.1, hlink.ne, hlink.contains_callee⟩

theorem Update.Relinks.wellFormed (hr : u.Relinks v path (old.diff new) new) (hu : u.graph.WellFormed)
    (hfind : ∀ name id, u.graph.functionNodeId? path name = some id ↔
      new.contains name = true ∧ id = nodeId path name) : v.graph.WellFormed := by
  refine hu.of_hasEdge hr.nodes_eq (hr.simple hu.simple) fun source target hedge => ?_
  refine ((hr.hasEdge_iff_links hfind source target).mp hedge).imp And.left ?_
  rintro ⟨caller, callee, -, hlink, rfl, rfl⟩
  refine ⟨?_, ?_, fun hsame => hlink.ne (nodeId_inj_right.mp hsame).symm⟩
  · exact containsNode_of_functionNodeId? ((hfind caller _).mpr ⟨hlink.contains_caller, rfl⟩)
  · exact containsNode_of_functionNodeId? ((hfind callee _).mpr ⟨hlink.contains_callee, rfl⟩)

end Halves

/-! ## The whole difference -/

section ApplyDiff

variable {g : Graph} {path : String} {old new : CallGraph}

/-- `h` is `g` after the difference of two call graphs of a file has been applied. -/
structure Applies (g h : Graph) (path : String) (old new : CallGraph) : Prop where
  wellFormed : h.WellFormed
  mem_places : ∀ line function, (⟨path, line, function⟩ : Location) ∈ h.places ↔
    ∃ f, new.get? function = some f ∧ f.startLine = line
  mem_places_of_ne : ∀ place : Location, place.file ≠ path → (place ∈ h.places ↔ place ∈ g.places)
  hasEdge_iff : ∀ source target, h.hasEdge source target = true ↔
    (g.hasEdge source target = true ∧
      (∀ name, old.contains name = true → new.contains name = false →
        source ≠ nodeId path name ∧ target ≠ nodeId path name) ∧
      ∀ p ∈ (old.diff new).removedEdges, '.' ∉ p.2.toList → new.contains p.1 = true →
        new.contains p.2 = true → ¬ (source = nodeId path p.1 ∧ target = nodeId path p.2)) ∨
    ∃ caller callee, ((caller, callee) ∈ (old.diff new).addedEdges ∨
        callee ∈ (old.diff new).addedFunctions) ∧ new.Links caller callee ∧
      source = nodeId path caller ∧ target = nodeId path callee
  unnamed : ∀ e ∈ h.edges, e ∈ g.edges ∨ e = .unresolved e.source e.target

theorem WellFormed.exists_applyDiff (hg : g.WellFormed) (hold : g.Mirrors path old)
    (hplain : new.HasPlainNames) :
    ∃ u, g.applyDiff (old.diff new) new path = .ok u ∧ g.Applies u.graph path old new := by
  obtain ⟨u, hu, hrenewed⟩ := hold.exists_renew hg hplain .empty
  have hrelinked := u.relinks_relink (old.diff new) new path
  have hfind (name id : String) : u.graph.functionNodeId? path name = some id ↔
      new.contains name = true ∧ id = nodeId path name := by
    rw [hrenewed.wellFormed.functionNodeId?_eq_some, shows_iff_contains hrenewed.mem_places]
  have hwf := hrelinked.wellFormed hrenewed.wellFormed hfind
  have hplaces : (u.relink (old.diff new) new path).finish.graph.places = u.graph.places := by
    rw [Update.places_finish hwf.nodup_nodeIds, places, hrelinked.nodes_eq, places]
  refine ⟨_, by rw [applyDiff_eq, hu]; rfl, Update.wellFormed_finish hwf, fun line function => ?_,
    fun place hfile => ?_, fun source target => ?_, fun e he => ?_⟩
  · rw [hplaces, hrenewed.mem_places]
  · rw [hplaces, hrenewed.mem_places_of_ne place hfile]
  · rw [hasEdge_congr (Update.edges_finish hwf.nodup_nodeIds), hrelinked.hasEdge_iff_links hfind,
      hrenewed.hasEdge_iff, and_assoc]
  · rw [Update.edges_finish hwf.nodup_nodeIds] at he
    exact (hrelinked.unnamed e he).imp_left fun he => hrenewed.edges_subset he

theorem Applies.shows_iff {h : Graph} (ha : g.Applies h path old new) {function : String} :
    h.Shows path function ↔ new.contains function = true :=
  shows_iff_contains ha.mem_places

/-- The edge of a call that stays, between functions that do, is none of those that go. -/
theorem forall_ne_of_stays {caller callee : String} (hcaller : new.contains caller = true)
    (hcallee : new.contains callee = true) (hstays : (caller, callee) ∉ (old.diff new).removedEdges)
    (path : String) :
    (∀ name ∈ (old.diff new).removedFunctions,
      nodeId path caller ≠ nodeId path name ∧ nodeId path callee ≠ nodeId path name) ∧
    ∀ p ∈ (old.diff new).removedEdges,
      ¬ (nodeId path caller = nodeId path p.1 ∧ nodeId path callee = nodeId path p.2) := by
  simp only [ne_eq, nodeId_inj_right]
  refine ⟨fun name hgone => ?_, ?_⟩
  · have hmissing := (CallGraph.mem_removedFunctions.mp hgone).2
    constructor
    · rintro rfl
      exact Bool.false_ne_true (hmissing.symm.trans hcaller)
    · rintro rfl
      exact Bool.false_ne_true (hmissing.symm.trans hcallee)
  · rintro ⟨caller', callee'⟩ hgone ⟨rfl, rfl⟩
    exact hstays hgone

/-- The edges between functions of both revisions that a difference keeps. -/
theorem Applies.hasEdge_iff_links {h : Graph} (ha : g.Applies h path old new) (hg : g.WellFormed)
    (hold : g.Mirrors path old) {caller callee : String} (hcaller : h.Shows path caller)
    (hcallee : h.Shows path callee) :
    h.hasEdge (nodeId path caller) (nodeId path callee) = true ↔ new.Links caller callee := by
  have hplain := ha.wellFormed.plain_of_shows hcaller
  have hplain' := ha.wellFormed.plain_of_shows hcallee
  rw [ha.shows_iff] at hcaller hcallee
  rw [ha.hasEdge_iff, CallGraph.links_iff_stays_or_comes old new]
  constructor
  · rintro (⟨hedge, -, hkept⟩ | ⟨caller', callee', hnew, hlink, hs, ht⟩)
    · obtain ⟨hs, ht⟩ := hg.shows_of_hasEdge hplain hplain' hedge
      have hlink := (hold.hasEdge_iff caller callee hs ht).mp hedge
      exact .inl ⟨hlink, hcaller, hcallee, fun hgone =>
        hkept (caller, callee) hgone hlink.2.1 hcaller hcallee ⟨rfl, rfl⟩⟩
    · obtain rfl := nodeId_inj_right.mp hs
      obtain rfl := nodeId_inj_right.mp ht
      exact .inr ⟨hnew, hlink⟩
  · rintro (⟨hlink, -, -, hkept⟩ | ⟨hnew, hlink⟩)
    · have hedge := (hold.hasEdge_iff caller callee (hold.shows_iff.mpr hlink.contains_caller)
        (hold.shows_iff.mpr hlink.contains_callee)).mpr hlink
      obtain ⟨hends, hpairs⟩ := forall_ne_of_stays hcaller hcallee hkept path
      exact .inl ⟨hedge,
        fun name hname hgone => hends name (CallGraph.mem_removedFunctions.mpr ⟨hname, hgone⟩),
        fun p hgone _ _ _ => hpairs p hgone⟩
    · exact .inr ⟨caller, callee, hnew, hlink, rfl, rfl⟩

theorem Applies.redrawn {h : Graph} (ha : g.Applies h path old new) (hg : g.WellFormed)
    (hold : g.Mirrors path old) : g.Redrawn path new h where
  wellFormed := ha.wellFormed
  mirrors := ⟨ha.mem_places, fun _ _ => ha.hasEdge_iff_links hg hold⟩
  mem_places := ha.mem_places_of_ne
  hasEdge_iff file function file' function' hs ht hne := by
    have hplain (name : String) (hname : new.contains name = true) : IsPlainName name :=
      ha.wellFormed.plain_of_shows (ha.shows_iff.mpr hname)
    have hsplain := ha.wellFormed.plain_of_shows hs
    have htplain := ha.wellFormed.plain_of_shows ht
    have hpath {caller callee : String} (hcaller : new.contains caller = true)
        (hcallee : new.contains callee = true) : ¬ (nodeId file function = nodeId path caller ∧
          nodeId file' function' = nodeId path callee) := by
      rintro ⟨hs, ht⟩
      exact hne ⟨((nodeId_inj hsplain (hplain _ hcaller)).mp hs).1,
        ((nodeId_inj htplain (hplain _ hcallee)).mp ht).1⟩
    have hstays {name : String} (hname : old.contains name = true) (hgone : new.contains name = false)
        {file function : String} (hs : h.Shows file function) :
        nodeId file function ≠ nodeId path name := by
      have hplain' := hg.plain_of_shows (hold.shows_iff.mpr hname)
      rw [ne_eq, nodeId_inj (ha.wellFormed.plain_of_shows hs) hplain']
      rintro ⟨rfl, rfl⟩
      rw [ha.shows_iff.mp hs] at hgone
      cases hgone
    rw [ha.hasEdge_iff]
    constructor
    · rintro (⟨hedge, -⟩ | ⟨caller, callee, -, hlink, hedge⟩)
      · exact hedge
      · exact absurd hedge (hpath hlink.contains_caller hlink.contains_callee)
    · refine fun hedge => .inl ⟨hedge, fun name hname hgone => ?_, fun p _ _ => hpath⟩
      exact ⟨hstays hname hgone hs, hstays hname hgone ht⟩

/-- Applying the difference of two call graphs, of which the graph shows the earlier one, succeeds and
leaves the later one. Every edge that comes is derived from a call. -/
theorem WellFormed.exists_redrawn_applyDiff (hg : g.WellFormed) (hold : g.Mirrors path old)
    (hplain : new.HasPlainNames) :
    ∃ u, g.applyDiff (old.diff new) new path = .ok u ∧ g.Redrawn path new u.graph ∧
      ∀ e ∈ u.graph.edges, e ∈ g.edges ∨ e = .unresolved e.source e.target := by
  obtain ⟨u, hu, ha⟩ := hg.exists_applyDiff hold hplain
  exact ⟨u, hu, ha.redrawn hg hold, ha.unnamed⟩

end ApplyDiff

end Graph

end Flowgraph
