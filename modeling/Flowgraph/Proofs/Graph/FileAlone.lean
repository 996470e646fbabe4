import Flowgraph.Proofs.Graph.Endpoints
import Flowgraph.Proofs.Graph.Ids
import Flowgraph.Proofs.Graph.Linking

/-!
# Graphs of one file

What it means that a graph shows the functions of one file and the calls between them, and nothing else.
The graph made of a call graph alone does, and any other that does has the same nodes and edges. Within
one file an id tells the function, whatever the functions are called.
-/

namespace Flowgraph

/-- A node as it comes into the graph: not yet classified, whatever its flags say. -/
structure Node.IsFresh (n : Node) : Prop where
  label_eq : n.label = n.source.function
  type_eq : n.type = Node.pendingType
  pending_eq : n.pending = true
  description_eq : n.description = none

/-- Of a fresh node, the flags are all that its id and its place do not tell. -/
theorem Node.IsFresh.eq {m n : Node} (hm : m.IsFresh) (hn : n.IsFresh) (hid : m.id = n.id)
    (hsource : m.source = n.source) (hentry : m.isEntryPoint = n.isEntryPoint)
    (hexit : m.isExitPoint = n.isExitPoint) : m = n := by
  obtain ⟨hmlabel, hmtype, hmpending, hmdescription⟩ := hm
  obtain ⟨hnlabel, hntype, hnpending, hndescription⟩ := hn
  cases m
  cases n
  simp_all

/-- Whether the node of a function stands where a call graph has the function. -/
def Node.OnLine (calls : CallGraph) (n : Node) : Prop :=
  ∃ f, calls.get? n.source.function = some f ∧ f.startLine = n.source.line

namespace Graph

variable {g h : Graph} {path id : String} {calls : CallGraph} {place : Location}

/-! ## Fresh graphs -/

/-- A graph in which no node has been classified and no edge named. -/
structure IsFresh (g : Graph) : Prop where
  nodup_nodeIds : g.nodeIds.Nodup
  id_eq : ∀ n ∈ g.nodes, n.id = nodeId n.source.file n.source.function
  fresh : ∀ n ∈ g.nodes, n.IsFresh
  flagsRight : g.FlagsRight
  simple : (g.edges.map fun e => (e.source, e.target)).Nodup
  unnamed : ∀ e ∈ g.edges, e = .unresolved e.source e.target

theorem isFresh_refreshEndpoints (hids : g.nodeIds.Nodup) (hfresh : ∀ n ∈ g.nodes, n.IsFresh) :
    ∀ n ∈ g.refreshEndpoints.nodes, n.IsFresh := by
  rw [refreshEndpoints_eq hids]
  intro n hn
  obtain ⟨m, hm, rfl⟩ := List.mem_map.mp hn
  obtain ⟨hlabel, htype, hpending, hdescription⟩ := hfresh m hm
  rw [refreshNode, if_pos hpending]
  exact ⟨hlabel, htype, hpending, hdescription⟩

namespace IsFresh

theorem containsNode_iff (hg : g.IsFresh) :
    g.containsNode id = true ↔ ∃ place ∈ g.places, id = nodeId place.file place.function := by
  simp only [Graph.containsNode_iff, places, List.mem_map, exists_exists_and_eq_and]
  constructor
  · rintro ⟨n, hn, rfl⟩
    exact ⟨n, hn, hg.id_eq n hn⟩
  · rintro ⟨n, hn, rfl⟩
    exact ⟨n, hn, hg.id_eq n hn⟩

theorem mem_edges_iff (hg : g.IsFresh) {e : Edge} :
    e ∈ g.edges ↔ g.hasEdge e.source e.target = true ∧ e = .unresolved e.source e.target := by
  rw [hasEdge_iff]
  constructor
  · exact fun he => ⟨⟨e, he, rfl, rfl⟩, hg.unnamed e he⟩
  · rintro ⟨⟨d, hd, hs, ht⟩, heq⟩
    rw [heq, ← hs, ← ht, ← hg.unnamed d hd]
    exact hd

section Perm

variable (hg : g.IsFresh) (hh : h.IsFresh)
  (hedges : ∀ source target, h.hasEdge source target = g.hasEdge source target)

include hg hh hedges

theorem edges_perm : g.edges.Perm h.edges := by
  have hnodup {k : Graph} (hk : k.IsFresh) : k.edges.Nodup := List.Nodup.of_map _ hk.simple
  refine (List.perm_ext_iff_of_nodup (hnodup hg) (hnodup hh)).mpr fun e => ?_
  rw [hg.mem_edges_iff, hh.mem_edges_iff, hedges]

theorem nodes_subset (hplaces : ∀ place, place ∈ h.places ↔ place ∈ g.places) : g.nodes ⊆ h.nodes := by
  intro n hn
  obtain ⟨m, hm, hsource⟩ := List.mem_map.mp ((hplaces n.source).mpr (List.mem_map_of_mem hn))
  have hid : m.id = n.id := by rw [hh.id_eq m hm, hg.id_eq n hn, hsource]
  obtain ⟨hentry, hexit⟩ := hg.flagsRight n hn (hg.fresh n hn).pending_eq
  obtain ⟨hentry', hexit'⟩ := hh.flagsRight m hm (hh.fresh m hm).pending_eq
  have hcontains (id : String) : h.containsNode id = true ↔ g.containsNode id = true := by
    simp only [hg.containsNode_iff, hh.containsNode_iff, hplaces]
  -- The flags of the two agree with the same edges between the same nodes.
  have hsame : m.isEntryPoint = n.isEntryPoint ∧ m.isExitPoint = n.isExitPoint := by
    rw [hentry, hexit, hentry', hexit', hid]
    exact ⟨isEntry_congr hcontains fun source => hedges source n.id,
      isExit_congr hcontains fun target => hedges n.id target⟩
  exact (hh.fresh m hm).eq (hg.fresh n hn) hid hsource hsame.1 hsame.2 ▸ hm

/-- Fresh graphs with nodes at the same places and edges between the same nodes are the same but for the
order of nodes and edges. -/
theorem nodes_perm (hplaces : ∀ place, place ∈ h.places ↔ place ∈ g.places) : g.nodes.Perm h.nodes := by
  have hnodup {k : Graph} (hk : k.IsFresh) : k.nodes.Nodup := List.Nodup.of_map _ hk.nodup_nodeIds
  refine (List.perm_ext_iff_of_nodup (hnodup hg) (hnodup hh)).mpr fun n => ?_
  exact ⟨fun hn => hg.nodes_subset hh hedges hplaces hn,
    fun hn => hh.nodes_subset hg (fun source target => (hedges source target).symm)
      (fun place => (hplaces place).symm) hn⟩

end Perm

end IsFresh

/-! ## Graphs of one file -/

/-- Every node is that of a function of the file, with the id of its name, and every edge links two nodes
that no other edge links. -/
structure OfFile (g : Graph) (path : String) : Prop where
  nodup_nodeIds : g.nodeIds.Nodup
  file_eq : ∀ n ∈ g.nodes, n.source.file = path
  id_eq : ∀ n ∈ g.nodes, n.id = nodeId n.source.file n.source.function
  closed : g.Closed
  simple : (g.edges.map fun e => (e.source, e.target)).Nodup

namespace OfFile

variable {name : String}

theorem functionNodeId?_eq_some (hg : g.OfFile path) :
    g.functionNodeId? path name = some id ↔ g.Shows path name ∧ id = nodeId path name :=
  functionNodeId?_eq_some_of fun n hn hfile => hfile ▸ hg.id_eq n hn

theorem containsNode_nodeId (hg : g.OfFile path) :
    g.containsNode (nodeId path name) = true ↔ g.Shows path name := by
  rw [containsNode_iff]
  constructor
  · rintro ⟨n, hn, hid⟩
    have hfile := hg.file_eq n hn
    rw [hg.id_eq n hn, hfile] at hid
    exact ⟨n, hn, hfile, nodeId_inj_right.mp hid⟩
  · rintro ⟨n, hn, rfl, rfl⟩
    exact ⟨n, hn, hg.id_eq n hn⟩

/-- A graph with the same ids, functions and edges is one of the file too. -/
theorem congr (hg : g.OfFile path) (hkeys : h.nodes.map Node.key = g.nodes.map Node.key)
    (hedges : h.edges = g.edges) : h.OfFile path := by
  have hnamed : ∀ n ∈ h.nodes,
      n.source.file = path ∧ n.id = nodeId n.source.file n.source.function := by
    intro n hn
    obtain ⟨m, hm, hkey⟩ := List.mem_map.mp (hkeys ▸ List.mem_map_of_mem hn)
    simp only [Node.key, Prod.mk.injEq] at hkey
    rw [← hkey.1, ← hkey.2.1, ← hkey.2.2]
    exact ⟨hg.file_eq m hm, hg.id_eq m hm⟩
  refine ⟨?_, fun n hn => (hnamed n hn).1, fun n hn => (hnamed n hn).2,
    hg.closed.congr hkeys (hedges ▸ List.Subset.refl _), hedges ▸ hg.simple⟩
  rw [nodeIds_congr hkeys]
  exact hg.nodup_nodeIds

/-- What the nodes are of, and where, if each is that of a function of a call graph and each of its
functions has one. -/
theorem mem_places_iff (hg : g.OfFile path)
    (hlines : ∀ n ∈ g.nodes, n.OnLine calls)
    (hshows : ∀ name, calls.contains name = true → g.Shows path name) :
    place ∈ g.places ↔
      place.file = path ∧ ∃ f, calls.get? place.function = some f ∧ f.startLine = place.line := by
  constructor
  · intro hplace
    obtain ⟨n, hn, rfl⟩ := List.mem_map.mp hplace
    exact ⟨hg.file_eq n hn, hlines n hn⟩
  · obtain ⟨file, line, function⟩ := place
    rintro ⟨hfile, f, hf, hline⟩
    obtain ⟨n, hn, hfile', rfl⟩ := hshows function (CallGraph.contains_iff.mpr ⟨f, hf⟩)
    obtain ⟨f', hf', hline'⟩ := hlines n hn
    obtain rfl := Option.some.inj (hf.symm.trans hf')
    refine List.mem_map.mpr ⟨n, hn, ?_⟩
    rw [Location.mk.injEq, hfile', ← hline']
    exact ⟨hfile.symm, hline, rfl⟩

end OfFile

/-- `g` shows the functions of a file, and between them the calls that stay in the file, and nothing
else. -/
structure Depicts (g : Graph) (path : String) (calls : CallGraph) : Prop extends
    g.OfFile path, g.IsFresh where
  mem_places : ∀ place : Location, place ∈ g.places ↔
    place.file = path ∧ ∃ f, calls.get? place.function = some f ∧ f.startLine = place.line
  hasEdge_iff : ∀ source target, g.hasEdge source target = true ↔
    ∃ caller callee, calls.Links caller callee ∧ source = nodeId path caller ∧
      target = nodeId path callee

namespace Depicts

theorem shows_iff (hg : g.Depicts path calls) {name : String} :
    g.Shows path name ↔ calls.contains name = true := by
  simp only [shows_iff_mem_places, hg.mem_places, CallGraph.contains_iff, true_and]
  constructor
  · rintro ⟨-, f, hf, -⟩
    exact ⟨f, hf⟩
  · rintro ⟨f, hf⟩
    exact ⟨f.startLine, f, hf, rfl⟩

/-- Two graphs that show the same functions and calls are the same but for the order of nodes and
edges. -/
theorem perm (hg : g.Depicts path calls) (hh : h.Depicts path calls) :
    g.nodes.Perm h.nodes ∧ g.edges.Perm h.edges := by
  have hedges (source target : String) : h.hasEdge source target = g.hasEdge source target := by
    rw [Bool.eq_iff_iff, hg.hasEdge_iff, hh.hasEdge_iff]
  refine ⟨hg.toIsFresh.nodes_perm hh.toIsFresh hedges fun place => ?_,
    hg.toIsFresh.edges_perm hh.toIsFresh hedges⟩
  rw [hg.mem_places, hh.mem_places]

theorem wellFormed (hg : g.Depicts path calls) (hplain : calls.HasPlainNames) : g.WellFormed where
  nodup_nodeIds := hg.nodup_nodeIds
  id_eq := hg.id_eq
  plain n hn := hplain _ (hg.shows_iff.mp ⟨n, hn, hg.file_eq n hn, rfl⟩)
  closed := hg.closed
  simple := hg.simple
  loopless e he heq := by
    obtain ⟨caller, callee, hlink, hs, ht⟩ :=
      (hg.hasEdge_iff _ _).mp (Graph.hasEdge_iff.mpr ⟨e, he, rfl, rfl⟩)
    exact hlink.ne (nodeId_inj_right.mp (ht.symm.trans (heq.symm.trans hs)))

end Depicts

/-! ## The graph of a call graph -/

/-- The node of a function in the graph of its file alone. -/
def fileNode (path : String) (f : FunctionInfo) : Node := Node.ofFunction (nodeId path f.name) path f

theorem foldl_addFunction {fs : List FunctionInfo} (hnames : (fs.map (·.name)).Nodup)
    (hfree : ∀ f ∈ fs, g.containsNode (nodeId path f.name) = false) :
    fs.foldl (addFunction path) g = ⟨g.nodes ++ fs.map (fileNode path), g.edges⟩ := by
  -- Every function gets the id of its own name, which those before it leave free.
  induction fs generalizing g with
  | nil => simp
  | cons f fs ih =>
    obtain ⟨hname, hnames⟩ := List.nodup_cons.mp hnames
    have hadd : addFunction path g f = ⟨g.nodes ++ [fileNode path f], g.edges⟩ := by
      rw [addFunction, allocateId_of_free (hfree f List.mem_cons_self)]
      rfl
    have hrest : ∀ f' ∈ fs,
        containsNode ⟨g.nodes ++ [fileNode path f], g.edges⟩ (nodeId path f'.name) = false := by
      intro f' hf'
      have hold := hfree f' (List.mem_cons_of_mem f hf')
      rw [← Bool.not_eq_true, containsNode_iff] at hold ⊢
      rintro ⟨n, hn, hid⟩
      rcases List.mem_append.mp hn with hn | hn
      · exact hold ⟨n, hn, hid⟩
      · rw [List.mem_singleton.mp hn] at hid
        have heq : f'.name = f.name := (nodeId_inj_right.mp hid).symm
        exact hname (List.mem_map.mpr ⟨f', hf', heq⟩)
    rw [List.foldl_cons, hadd, ih hnames hrest]
    simp

/-- The nodes of a file without any edges. -/
def unlinked (calls : CallGraph) (path : String) : Graph := ⟨calls.toList.map (fileNode path), []⟩

theorem mem_places_unlinked :
    place ∈ (unlinked calls path).places ↔
      place.file = path ∧ ∃ f, calls.get? place.function = some f ∧ f.startLine = place.line := by
  simp only [places, unlinked, List.map_map, List.mem_map, CallGraph.mem_toList]
  constructor
  · rintro ⟨f, hf, rfl⟩
    exact ⟨rfl, f, hf, rfl⟩
  · rintro ⟨hfile, f, hf, hline⟩
    refine ⟨f, (CallGraph.name_of_get? hf).symm ▸ hf, ?_⟩
    obtain ⟨file, line, function⟩ := place
    simp only at hfile hf hline
    subst hfile hline
    simp [fileNode, Node.ofFunction, CallGraph.name_of_get? hf]

theorem shows_unlinked {file function : String} :
    (unlinked calls path).Shows file function ↔ file = path ∧ calls.contains function = true := by
  simp only [shows_iff_mem_places, mem_places_unlinked, CallGraph.contains_iff]
  constructor
  · rintro ⟨-, hfile, f, hf, -⟩
    exact ⟨hfile, f, hf⟩
  · rintro ⟨hfile, f, hf⟩
    exact ⟨f.startLine, hfile, f, hf, rfl⟩

theorem ofFile_unlinked (calls : CallGraph) (path : String) : (unlinked calls path).OfFile path where
  nodup_nodeIds := by
    have hids : (unlinked calls path).nodeIds = (calls.toList.map (·.name)).map (nodeId path) := by
      simp [unlinked, nodeIds, fileNode, Node.ofFunction]
    rw [hids]
    exact calls.nodup_map_name_toList.map fun _ _ => nodeId_inj_right.mp
  file_eq n hn := by
    obtain ⟨f, -, rfl⟩ := List.mem_map.mp hn
    rfl
  id_eq n hn := by
    obtain ⟨f, -, rfl⟩ := List.mem_map.mp hn
    rfl
  closed e he := absurd he List.not_mem_nil
  simple := List.nodup_nil

theorem functionNodeId?_unlinked {function : String} :
    (unlinked calls path).functionNodeId? path function = some id ↔
      calls.contains function = true ∧ id = nodeId path function := by
  rw [(ofFile_unlinked calls path).functionNodeId?_eq_some, shows_unlinked, and_iff_right rfl]

/-- The graph of a file alone has its functions for nodes and its calls for edges. -/
theorem exists_extends_ofCallGraph (calls : CallGraph) (path : String) :
    ∃ linked, ofCallGraph calls path = linked.refreshEndpoints ∧
      Extends (unlinked calls path) linked fun source target =>
        ∃ caller callee, calls.Links caller callee ∧ source = nodeId path caller ∧
          target = nodeId path callee := by
  have hnodes : calls.toList.foldl (addFunction path) empty = unlinked calls path := by
    rw [foldl_addFunction calls.nodup_map_name_toList fun _ _ => rfl]
    rfl
  refine ⟨_, by rw [ofCallGraph, hnodes], ?_⟩
  have hcall (caller call : String) {h : Graph} (hh : h.nodes = (unlinked calls path).nodes) :
      Extends h (addCall path calls caller h call) fun source target =>
        ∃ callee, fileCallee? calls caller call = some callee ∧
          (calls.contains caller = true ∧ source = nodeId path caller) ∧
            calls.contains callee = true ∧ target = nodeId path callee := by
    refine (Extends.addCall h path calls caller call).congr fun source target => ?_
    simp only [functionNodeId?_congr hh, functionNodeId?_unlinked]
  have hlinked := Extends.foldl (f := fun g : Graph => g) (s := unlinked calls path) (l := calls.toList)
    fun f _ h hh => Extends.foldl (f := fun g : Graph => g) (l := f.calls) fun call _ h' hh' =>
      hcall f.name call (hh'.trans hh)
  refine hlinked.congr fun source target => ?_
  simp only [links_iff_fileCallee?, CallGraph.mem_toList]
  constructor
  · rintro ⟨f, hf, call, hcall, callee, hcallee, ⟨-, hs⟩, -, ht⟩
    exact ⟨f.name, callee, ⟨f, hf, call, hcall, hcallee⟩, hs, ht⟩
  · rintro ⟨caller, callee, ⟨f, hf, call, hcall, hcallee⟩, hs, ht⟩
    obtain rfl := CallGraph.name_of_get? hf
    obtain ⟨rfl, -, -, hcontains⟩ := fileCallee?_eq_some.mp hcallee
    exact ⟨f, hf, _, hcall, _, hcallee, ⟨CallGraph.contains_iff.mpr ⟨f, hf⟩, hs⟩, hcontains, ht⟩

/-- The graph made of a call graph shows its functions and calls. -/
theorem depicts_ofCallGraph (calls : CallGraph) (path : String) :
    (ofCallGraph calls path).Depicts path calls := by
  obtain ⟨linked, heq, hextends⟩ := exists_extends_ofCallGraph calls path
  have hnone := ofFile_unlinked calls path
  have hedges (source target : String) : linked.hasEdge source target = true ↔
      ∃ caller callee, calls.Links caller callee ∧ source = nodeId path caller ∧
        target = nodeId path callee := by
    rw [hextends.hasEdge_iff, or_iff_right]
    simp [unlinked, hasEdge]
  have hkeys : linked.nodes.map Node.key = (unlinked calls path).nodes.map Node.key := by
    rw [hextends.nodes_eq]
  have hcontains {name : String} (hname : calls.contains name = true) :
      linked.containsNode (nodeId path name) = true := by
    rw [containsNode_congr hkeys, hnone.containsNode_nodeId]
    exact shows_unlinked.mpr ⟨rfl, hname⟩
  have hlinked : linked.OfFile path := by
    refine { hnone.congr (h := ⟨linked.nodes, []⟩) hkeys rfl with
      closed := fun e he => ?_, simple := hextends.simple List.nodup_nil }
    obtain ⟨caller, callee, hlink, hs, ht⟩ := (hedges _ _).mp (hasEdge_iff.mpr ⟨e, he, rfl, rfl⟩)
    rw [hs, ht]
    exact ⟨hcontains hlink.contains_caller, hcontains hlink.contains_callee⟩
  have hids := hlinked.nodup_nodeIds
  rw [heq]
  refine { hlinked.congr (map_key_refreshEndpoints hids) (edges_refreshEndpoints hids) with
    fresh := isFresh_refreshEndpoints hids fun n hn => ?_
    flagsRight := flagsRight_refreshEndpoints hids
    unnamed := fun e he => ?_
    mem_places := fun place => ?_
    hasEdge_iff := fun source target => ?_ }
  · rw [hextends.nodes_eq] at hn
    obtain ⟨f, -, rfl⟩ := List.mem_map.mp hn
    exact ⟨rfl, rfl, rfl, rfl⟩
  · rw [edges_refreshEndpoints hids] at he
    exact (hextends.unnamed e he).resolve_left List.not_mem_nil
  · rw [places_refreshEndpoints hids, places, hextends.nodes_eq, ← places, mem_places_unlinked]
  · rw [hasEdge_congr (edges_refreshEndpoints hids), hedges]

theorem wellFormed_ofCallGraph (hplain : calls.HasPlainNames) (path : String) :
    (ofCallGraph calls path).WellFormed :=
  (depicts_ofCallGraph calls path).wellFormed hplain

end Graph

end Flowgraph
