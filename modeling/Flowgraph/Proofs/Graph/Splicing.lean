import Flowgraph.Proofs.Graph.CrossFile
import Flowgraph.Proofs.Graph.Frame

/-!
# Splicing

Which edges a splice drops, which it adds, and what it leaves alone. Nothing is asked of the graph but
that its ids are distinct: two nodes can have any number of edges between them, named or not, and an edge
can end where there is no node.
-/

namespace Flowgraph

/-- `m` is `n` with other entry and exit flags at most, and only if `n` is pending. -/
structure Node.SameButFlags (n m : Node) : Prop where
  eq_flags : m = { n with isEntryPoint := m.isEntryPoint, isExitPoint := m.isExitPoint }
  eq_of_classified : n.pending = false → m = n

theorem Node.SameButFlags.refl (n : Node) : n.SameButFlags n := ⟨rfl, fun _ => rfl⟩

theorem Node.SameButFlags.refreshNode (g : Graph) (n : Node) : n.SameButFlags (g.refreshNode n) := by
  unfold Graph.refreshNode
  split
  next hpending =>
    refine ⟨rfl, fun hclassified => ?_⟩
    rw [hpending] at hclassified
    cases hclassified
  next => exact .refl n

namespace Graph

variable {g h : Graph} {path file function id source target : String} {calls : List CrossFileCall}
  {e : Edge} {pairs : List StringPair}

/-! ## Ids of files -/

/-- Where ids are distinct, no two files share one. -/
theorem not_mem_fileIds_of_ne (hids : g.nodeIds.Nodup) {other : String} (hne : other ≠ path)
    (hid : id ∈ g.fileIds other) : id ∉ g.fileIds path := by
  intro hid'
  obtain ⟨n, hn, hfile, hn'⟩ := mem_fileIds.mp hid
  obtain ⟨m, hm, hfile', hm'⟩ := mem_fileIds.mp hid'
  have hsame := List.inj_on_of_nodup_map hids hn hm (hn'.trans hm'.symm)
  rw [← hfile, ← hfile', hsame] at hne
  exact hne rfl

/-! ## Desired pairs and stale edges -/

theorem desires_congr (hkeys : h.nodes.map Node.key = g.nodes.map Node.key) :
    h.Desires path calls source target ↔ g.Desires path calls source target := by
  unfold Desires
  simp only [functionNodeId?_congr_key hkeys]

theorem Desires.source_mem_fileIds (hdesired : g.Desires path calls source target) :
    source ∈ g.fileIds path := by
  obtain ⟨c, -, -, hsource, -⟩ := hdesired
  exact mem_fileIds_of_functionNodeId? hsource

/-- Whether an edge without a name leads out of a file and has no call among `calls`. -/
def IsStale (g : Graph) (path : String) (calls : List CrossFileCall) (e : Edge) : Prop :=
  e.label = Edge.unresolvedLabel ∧ e.source ∈ g.fileIds path ∧ e.target ∉ g.fileIds path ∧
    ¬ g.Desires path calls e.source e.target

instance (g : Graph) (path : String) (calls : List CrossFileCall) :
    DecidablePred (g.IsStale path calls) := fun e =>
  inferInstanceAs (Decidable (e.label = Edge.unresolvedLabel ∧ e.source ∈ g.fileIds path ∧
    e.target ∉ g.fileIds path ∧ ¬ g.Desires path calls e.source e.target))

theorem staysLinked_iff_not_isStale :
    staysLinked ((g.fileNodes path).map (·.id)) (g.desiredLinks path calls) e = true ↔
      ¬ g.IsStale path calls e := by
  rw [staysLinked_iff, mem_desiredLinks_iff_desires, IsStale, fileIds]
  tauto

/-! ## The edges of a splice -/

theorem edges_withKeptEdges : (g.withKeptEdges path calls).edges =
    g.edges.filter fun e => ¬ g.IsStale path calls e := by
  unfold withKeptEdges
  refine List.filter_congr fun e _ => ?_
  rw [Bool.eq_iff_iff, staysLinked_iff_not_isStale, decide_eq_true_iff]

/-- An edge between the nodes of a call is never dropped. -/
theorem hasEdge_withKeptEdges (hdesired : g.Desires path calls source target) :
    (g.withKeptEdges path calls).hasEdge source target = g.hasEdge source target := by
  rw [Bool.eq_iff_iff, hasEdge_iff, hasEdge_iff, edges_withKeptEdges]
  refine exists_congr fun e => ?_
  rw [List.mem_filter, and_assoc]
  refine and_congr_right fun _ => and_iff_right_of_imp ?_
  rintro ⟨rfl, rfl⟩
  rw [decide_eq_true_iff]
  intro hstale
  exact hstale.2.2.2 hdesired

/-- Each of several pairs gets an edge of its own unless it has one. -/
theorem edges_foldl_addEdge (hpairs : pairs.Nodup) :
    (pairs.foldl (fun h p => h.addEdge (.unresolved p.1 p.2)) g).edges =
      g.edges ++ (pairs.filter fun p => !g.hasEdge p.1 p.2).map fun p => .unresolved p.1 p.2 := by
  induction pairs generalizing g with
  | nil => simp
  | cons p pairs ih =>
    obtain ⟨hp, hpairs⟩ := List.nodup_cons.mp hpairs
    rw [List.foldl_cons, ih hpairs]
    cases hlinked : g.hasEdge p.1 p.2 with
    | true => simp [addEdge, Edge.unresolved, hlinked]
    | false =>
      -- The new edge links no pair that is still to come.
      have hrest : (pairs.filter fun q => !(g.addEdge (.unresolved p.1 p.2)).hasEdge q.1 q.2) =
          pairs.filter fun q => !g.hasEdge q.1 q.2 := by
        refine List.filter_congr fun q hq => ?_
        rw [Bool.not_inj_iff, Bool.eq_iff_iff, hasEdge_addEdge]
        refine or_iff_left fun hsame => hp ?_
        have hpq : p = q := Prod.ext hsame.1 hsame.2
        rwa [hpq]
      rw [hrest, edges_addEdge_of_not_hasEdge hlinked]
      simp [hlinked]

/-- The pairs of nodes that calls link and that had no edge. -/
def newLinks (g : Graph) (path : String) (calls : List CrossFileCall) : List StringPair :=
  (g.desiredLinks path calls).toList.filter fun p => !g.hasEdge p.1 p.2

theorem nodup_newLinks : (g.newLinks path calls).Nodup :=
  (OrderedSet.nodup_toList _).filter _

theorem mem_newLinks : (source, target) ∈ g.newLinks path calls ↔
    g.Desires path calls source target ∧ g.hasEdge source target = false := by
  rw [newLinks, List.mem_filter, Std.ExtTreeSet.mem_toList, mem_desiredLinks_iff_desires,
    Bool.not_eq_true']

theorem newLinks_eq_nil :
    g.newLinks path calls = [] ↔ ∀ p ∈ g.desiredLinks path calls, g.hasEdge p.1 p.2 = true := by
  simp only [newLinks, List.filter_eq_nil_iff, Std.ExtTreeSet.mem_toList, Bool.not_eq_true',
    Bool.not_eq_false]

theorem edges_withDrawnEdges : (g.withDrawnEdges path calls).edges =
    (g.edges.filter fun e => ¬ g.IsStale path calls e) ++
      (g.newLinks path calls).map fun p => .unresolved p.1 p.2 := by
  rw [withDrawnEdges, edges_foldl_addEdge (OrderedSet.nodup_toList _), edges_withKeptEdges, newLinks]
  congr 2
  refine List.filter_congr fun p hp => ?_
  rw [Std.ExtTreeSet.mem_toList, mem_desiredLinks_iff_desires] at hp
  rw [hasEdge_withKeptEdges hp]

theorem edges_splice (hids : g.nodeIds.Nodup) : (g.splice path calls).graph.edges =
    (g.edges.filter fun e => ¬ g.IsStale path calls e) ++
      (g.newLinks path calls).map fun p => .unresolved p.1 p.2 := by
  rw [← edges_withDrawnEdges, graph_splice]
  split
  next hsame => rw [withDrawnEdges_eq_self hsame.1 hsame.2]
  next =>
    refine edges_refreshEndpoints ?_
    rwa [nodeIds_withDrawnEdges]

theorem added_splice_eq_length : (g.splice path calls).added = (g.newLinks path calls).length := by
  rw [added_splice, edges_withDrawnEdges, edges_withKeptEdges, List.length_append, List.length_map,
    Nat.add_sub_cancel_left]

theorem removed_splice_eq_countP :
    (g.splice path calls).removed = g.edges.countP fun e => g.IsStale path calls e := by
  have hcount := g.edges.length_eq_countP_add_countP fun e => g.IsStale path calls e
  rw [removed_splice, edges_withKeptEdges, ← List.countP_eq_length_filter, hcount]
  simp

/-! ## The nodes of a splice -/

theorem forall₂_sameButFlags_splice (hids : g.nodeIds.Nodup) :
    List.Forall₂ Node.SameButFlags g.nodes (g.splice path calls).graph.nodes := by
  rw [graph_splice]
  split
  next => exact List.forall₂_same.mpr fun n _ => .refl n
  next =>
    rw [refreshEndpoints_eq (by rwa [nodeIds_withDrawnEdges]), nodes_withDrawnEdges]
    exact List.forall₂_map_right_iff.mpr (List.forall₂_same.mpr fun n _ => .refreshNode _ n)

theorem map_key_splice (hids : g.nodeIds.Nodup) (path : String) (calls : List CrossFileCall) :
    (g.splice path calls).graph.nodes.map Node.key = g.nodes.map Node.key := by
  rw [graph_splice]
  split
  next => rfl
  next => rw [map_key_refreshEndpoints (by rwa [nodeIds_withDrawnEdges]), nodes_withDrawnEdges]

/-! ## Drawn calls -/

/-- The edges without a name that lead out of `path` are those of `calls`: there is no other, and none is
missing. A named edge can stand in for one without a name. -/
structure IsDrawn (g : Graph) (path : String) (calls : List CrossFileCall) : Prop where
  desires : ∀ e ∈ g.edges, e.label = Edge.unresolvedLabel → e.source ∈ g.fileIds path →
    e.target ∉ g.fileIds path → g.Desires path calls e.source e.target
  hasEdge : ∀ source target, g.Desires path calls source target → g.hasEdge source target = true

namespace IsDrawn

theorem not_isStale (hg : g.IsDrawn path calls) (he : e ∈ g.edges) : ¬ g.IsStale path calls e := by
  intro hstale
  obtain ⟨hlabel, hsource, htarget, hcall⟩ := hstale
  exact hcall (hg.desires e he hlabel hsource htarget)

/-- Calls that are drawn need no splice. -/
theorem splice_eq (hg : g.IsDrawn path calls) : g.splice path calls = ⟨g, 0, 0⟩ := by
  have hnew : g.newLinks path calls = [] := by
    rw [newLinks_eq_nil]
    intro p hp
    exact hg.hasEdge p.1 p.2 (mem_desiredLinks_iff_desires.mp hp)
  have hadded : (g.splice path calls).added = 0 := by rw [added_splice_eq_length, hnew, List.length_nil]
  have hremoved : (g.splice path calls).removed = 0 := by
    rw [removed_splice_eq_countP, List.countP_eq_zero]
    intro e he
    rw [decide_eq_true_iff]
    exact hg.not_isStale he
  have hgraph : (g.splice path calls).graph = g := by rw [graph_splice, if_pos ⟨hadded, hremoved⟩]
  calc g.splice path calls
      = ⟨(g.splice path calls).graph, (g.splice path calls).added, (g.splice path calls).removed⟩ := rfl
    _ = ⟨g, 0, 0⟩ := by rw [hgraph, hadded, hremoved]

end IsDrawn

theorem isDrawn_splice (hids : g.nodeIds.Nodup) : (g.splice path calls).graph.IsDrawn path calls where
  desires e he hlabel hsource htarget := by
    have hkeys := map_key_splice hids path calls
    rw [fileIds_congr hkeys] at hsource htarget
    rw [desires_congr hkeys]
    rw [edges_splice hids, List.mem_append, List.mem_filter, decide_eq_true_iff] at he
    rcases he with ⟨-, hkept⟩ | hnew
    · by_contra hcall
      exact hkept ⟨hlabel, hsource, htarget, hcall⟩
    · obtain ⟨p, hp, rfl⟩ := List.mem_map.mp hnew
      exact (mem_newLinks.mp hp).1
  hasEdge source target hdesired := by
    rw [desires_congr (map_key_splice hids _ _)] at hdesired
    rw [hasEdge_iff, edges_splice hids]
    cases hlinked : g.hasEdge source target with
    | true =>
      rw [← hasEdge_withKeptEdges hdesired, hasEdge_iff, edges_withKeptEdges] at hlinked
      obtain ⟨e, he, hends⟩ := hlinked
      exact ⟨e, List.mem_append_left _ he, hends⟩
    | false =>
      have hnew := mem_newLinks.mpr ⟨hdesired, hlinked⟩
      exact ⟨_, List.mem_append_right _ (List.mem_map_of_mem hnew), rfl, rfl⟩

/-- The splice of another file is none of a file's business. -/
theorem IsDrawn.splice_of_ne (hg : g.IsDrawn path calls) (hids : g.nodeIds.Nodup) {other : String}
    {calls' : List CrossFileCall} (hne : other ≠ path) :
    (g.splice other calls').graph.IsDrawn path calls where
  desires e he hlabel hsource htarget := by
    have hkeys := map_key_splice hids other calls'
    rw [fileIds_congr hkeys] at hsource htarget
    rw [desires_congr hkeys]
    rw [edges_splice hids, List.mem_append] at he
    rcases he with hkept | hnew
    · exact hg.desires e (List.mem_of_mem_filter hkept) hlabel hsource htarget
    · obtain ⟨p, hp, rfl⟩ := List.mem_map.mp hnew
      have hsource' := (mem_newLinks.mp hp).1.source_mem_fileIds
      exact absurd hsource (not_mem_fileIds_of_ne hids hne hsource')
  hasEdge source target hdesired := by
    rw [desires_congr (map_key_splice hids _ _)] at hdesired
    obtain ⟨e, he, hsource, htarget⟩ := hasEdge_iff.mp (hg.hasEdge source target hdesired)
    rw [hasEdge_iff, edges_splice hids]
    refine ⟨e, List.mem_append_left _ (List.mem_filter.mpr ⟨he, ?_⟩), hsource, htarget⟩
    rw [decide_eq_true_iff]
    intro hstale
    rw [← hsource] at hdesired
    exact not_mem_fileIds_of_ne hids hne hstale.2.1 hdesired.source_mem_fileIds

/-! ## What a splice does -/

/-- `s` is `g` with the edges that lead out of `path` drawn after `calls`. -/
structure Splices (g : Graph) (path : String) (calls : List CrossFileCall) (s : Splice) : Prop where
  /-- The edges that are not stale keep their order, and one comes for each pair that had none. -/
  edges_eq : ∃ new : List StringPair, new.Nodup ∧
    (∀ source target, (source, target) ∈ new ↔
      g.Desires path calls source target ∧ g.hasEdge source target = false) ∧
    s.graph.edges = (g.edges.filter fun e => ¬ g.IsStale path calls e) ++
      new.map (fun p => .unresolved p.1 p.2) ∧
    s.added = new.length
  removed_eq : s.removed = g.edges.countP fun e => g.IsStale path calls e
  nodes : List.Forall₂ Node.SameButFlags g.nodes s.graph.nodes
  desires : ∀ e ∈ s.graph.edges, e.label = Edge.unresolvedLabel → e.source ∈ g.fileIds path →
    e.target ∉ g.fileIds path → g.Desires path calls e.source e.target
  hasEdge : ∀ source target, g.Desires path calls source target → s.graph.hasEdge source target = true
  again : s.graph.splice path calls = ⟨s.graph, 0, 0⟩

/-- A splice drops the stale edges in place, adds an edge for each pair that calls link and that had none,
and counts both. It leaves every other edge and all of the nodes but their flags alone, and there is
nothing left to do for a second one. -/
theorem splices_splice (g : Graph) (path : String) (calls : List CrossFileCall) (hids : g.nodeIds.Nodup) :
    g.Splices path calls (g.splice path calls) where
  edges_eq := by
    refine ⟨g.newLinks path calls, nodup_newLinks, ?_, edges_splice hids, added_splice_eq_length⟩
    intro source target
    exact mem_newLinks
  removed_eq := removed_splice_eq_countP
  nodes := forall₂_sameButFlags_splice hids
  desires e he hlabel hsource htarget := by
    have hkeys := map_key_splice hids path calls
    rw [← fileIds_congr hkeys] at hsource htarget
    rw [← desires_congr hkeys]
    exact (isDrawn_splice hids).desires e he hlabel hsource htarget
  hasEdge source target hdesired := by
    rw [← desires_congr (map_key_splice hids _ _)] at hdesired
    exact (isDrawn_splice hids).hasEdge source target hdesired
  again := (isDrawn_splice hids).splice_eq

/-- One pair has an edge with a name and one without, and both stay. One edge is stale, and one is
missing. -/
theorem splices_splice_of_named_duplicate :
    let g : Graph := ⟨[.ofFunction "a.py::f" "a.py" ⟨"f", 1, 2, []⟩,
        ⟨"b.py::g", "Ask", "llm", ⟨"b.py", 1, "g"⟩, false, true, false, none⟩,
        .ofFunction "b.py::h" "b.py" ⟨"h", 4, 5, []⟩, .ofFunction "c.py::k" "c.py" ⟨"k", 1, 2, []⟩],
      [⟨"a.py::f", "b.py::g", "asks", none, none, none⟩, .unresolved "a.py::f" "b.py::h",
        .unresolved "b.py::h" "a.py::f", .unresolved "a.py::f" "b.py::g"]⟩
    let calls : List CrossFileCall :=
      [⟨⟨"a.py", "f", 2⟩, ⟨"b.py", "g", "b"⟩⟩, ⟨⟨"a.py", "f", 3⟩, ⟨"c.py", "k", "c"⟩⟩]
    let s := g.splice "a.py" calls
    g.nodeIds.Nodup ∧ g.Splices "a.py" calls s ∧ s.added = 1 ∧ s.removed = 1 ∧
      s.graph.edges = [⟨"a.py::f", "b.py::g", "asks", none, none, none⟩,
        .unresolved "b.py::h" "a.py::f", .unresolved "a.py::f" "b.py::g",
        .unresolved "a.py::f" "c.py::k"] := by
  intro g calls s
  have hids : g.nodeIds.Nodup := by decide
  refine ⟨hids, splices_splice g "a.py" calls hids, ?_, ?_, ?_⟩
  · decide +kernel
  · decide +kernel
  · decide +kernel

end Graph

end Flowgraph
