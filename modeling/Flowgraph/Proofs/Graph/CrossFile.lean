import Flowgraph.Graph.CrossFile
import Flowgraph.Proofs.Graph.Endpoints
import Flowgraph.Proofs.Graph.FileGraph

/-!
# Edges between files

What drawing the edges that lead out of a file keeps, and what it links.
-/

namespace Flowgraph

/-- Whether a call leads from a function of a file to a function of another. -/
def CrossFileCall.Joins (c : CrossFileCall) (file function file' function' : String) : Prop :=
  c.caller.file = file ∧ c.caller.function = function ∧
    c.callee.file = file' ∧ c.callee.function = function'

/-- Whether a call leads from one file to another. -/
def CrossFileCall.IsProper (c : CrossFileCall) : Prop := c.callee.file ≠ c.caller.file

namespace Graph

variable {g h : Graph} {path file function file' function' source target : String}
  {calls : List CrossFileCall}

/-! ## Desired links -/

/-- Whether one of `calls` leads from a function of `path` with the node `source` to a function with the
node `target`. -/
def Desires (g : Graph) (path : String) (calls : List CrossFileCall) (source target : String) : Prop :=
  ∃ c ∈ calls, c.caller.file = path ∧ g.functionNodeId? path c.caller.function = some source ∧
    g.functionNodeId? c.callee.file c.callee.function = some target

instance (g : Graph) (path : String) (calls : List CrossFileCall) (source target : String) :
    Decidable (g.Desires path calls source target) :=
  inferInstanceAs (Decidable (∃ c ∈ calls, c.caller.file = path ∧
    g.functionNodeId? path c.caller.function = some source ∧
    g.functionNodeId? c.callee.file c.callee.function = some target))

theorem callEnds?_eq_some {c : CrossFileCall} :
    g.callEnds? path c = some (source, target) ↔
      c.caller.file = path ∧ g.functionNodeId? path c.caller.function = some source ∧
        g.functionNodeId? c.callee.file c.callee.function = some target := by
  rw [callEnds?]
  by_cases hfile : c.caller.file = path
  · rw [if_pos (beq_iff_eq.mpr hfile), and_iff_right hfile]
    split
    next s t hs ht =>
      rw [hs, ht]
      simp only [Option.some.injEq, Prod.mk.injEq]
    next hnone =>
      constructor
      · intro heq
        cases heq
      · intro hends
        exact absurd hends.2 (hnone _ _ hends.1)
  · rw [if_neg (by simpa using hfile)]
    constructor
    · intro heq
      cases heq
    · intro hc
      exact absurd hc.1 hfile

theorem mem_desiredLinks_iff_desires :
    (source, target) ∈ g.desiredLinks path calls ↔ g.Desires path calls source target := by
  rw [desiredLinks, Std.ExtTreeSet.mem_ofList, List.contains_iff_mem, List.mem_filterMap]
  exact exists_congr fun c => and_congr_right fun _ => callEnds?_eq_some

theorem mem_desiredLinks (hg : g.WellFormed) :
    (source, target) ∈ g.desiredLinks path calls ↔
      ∃ c ∈ calls, c.caller.file = path ∧ g.Shows path c.caller.function ∧
        g.Shows c.callee.file c.callee.function ∧
        source = nodeId path c.caller.function ∧ target = nodeId c.callee.file c.callee.function := by
  rw [mem_desiredLinks_iff_desires]
  refine exists_congr fun c => and_congr_right fun _ => and_congr_right fun _ => ?_
  rw [hg.functionNodeId?_eq_some, hg.functionNodeId?_eq_some]
  tauto

/-- Between functions that have a node, the links are those of the calls. -/
theorem mem_desiredLinks_nodeId (hg : g.WellFormed) (hs : g.Shows file function)
    (ht : g.Shows file' function') :
    (nodeId file function, nodeId file' function') ∈ g.desiredLinks path calls ↔
      file = path ∧ ∃ c ∈ calls, c.Joins file function file' function' := by
  rw [mem_desiredLinks hg]
  constructor
  · rintro ⟨c, hc, rfl, hcaller, hcallee, hs', ht'⟩
    rw [nodeId_inj (hg.plain_of_shows hs) (hg.plain_of_shows hcaller)] at hs'
    rw [nodeId_inj (hg.plain_of_shows ht) (hg.plain_of_shows hcallee)] at ht'
    exact ⟨hs'.1, c, hc, hs'.1.symm, hs'.2.symm, ht'.1.symm, ht'.2.symm⟩
  · rintro ⟨rfl, c, hc, hfile, rfl, rfl, rfl⟩
    exact ⟨c, hc, hfile, hs, ht, rfl, rfl⟩

/-! ## Kept edges -/

theorem staysLinked_iff {ids : List String} {desired : StringPairs} {e : Edge} :
    staysLinked ids desired e = true ↔
      ((e.source ∈ ids → e.target ∈ ids) ∨ e.label ≠ Edge.unresolvedLabel ∨
        (e.source, e.target) ∈ desired) := by
  simp only [staysLinked, Bool.or_eq_true, Bool.not_eq_true', ← Bool.not_eq_true, Bool.and_eq_true,
    bne_iff_ne, List.contains_iff_mem, Std.ExtTreeSet.contains_iff_mem, or_assoc, not_and_not_right]

/-- The graph with the edges that stay when the calls from a file are drawn. -/
def withKeptEdges (g : Graph) (path : String) (calls : List CrossFileCall) : Graph where
  nodes := g.nodes
  edges := g.edges.filter (staysLinked ((g.fileNodes path).map (·.id)) (g.desiredLinks path calls))

/-- The graph with the edges that stay when the calls from a file are drawn, and those that come. -/
def withDrawnEdges (g : Graph) (path : String) (calls : List CrossFileCall) : Graph :=
  (g.desiredLinks path calls).toList.foldl (fun h p => h.addEdge (.unresolved p.1 p.2))
    (g.withKeptEdges path calls)

@[simp]
theorem nodes_withDrawnEdges : (g.withDrawnEdges path calls).nodes = g.nodes :=
  nodes_foldl_addEdge _ _ _

theorem nodeIds_withDrawnEdges : (g.withDrawnEdges path calls).nodeIds = g.nodeIds := by
  rw [nodeIds, nodes_withDrawnEdges, nodeIds]

theorem prefix_edges_withDrawnEdges (g : Graph) (path : String) (calls : List CrossFileCall) :
    (g.withKeptEdges path calls).edges <+: (g.withDrawnEdges path calls).edges :=
  prefix_edges_foldl_addEdge _ _ _

theorem sublist_edges_withKeptEdges (g : Graph) (path : String) (calls : List CrossFileCall) :
    (g.withKeptEdges path calls).edges.Sublist g.edges :=
  List.filter_sublist

/-! ## Drawing -/

theorem added_splice : (g.splice path calls).added =
    (g.withDrawnEdges path calls).edges.length - (g.withKeptEdges path calls).edges.length := rfl

theorem removed_splice :
    (g.splice path calls).removed = g.edges.length - (g.withKeptEdges path calls).edges.length := rfl

theorem length_edges_withDrawnEdges :
    (g.withDrawnEdges path calls).edges.length + (g.splice path calls).removed =
      g.edges.length + (g.splice path calls).added := by
  have hdrawn := (g.prefix_edges_withDrawnEdges path calls).length_le
  have hkept := (g.sublist_edges_withKeptEdges path calls).length_le
  rw [added_splice, removed_splice]
  omega

/-- Where no edge comes and none goes, the edges that stay are all there have been. -/
theorem withDrawnEdges_eq_self (hadded : (g.splice path calls).added = 0)
    (hremoved : (g.splice path calls).removed = 0) : g.withDrawnEdges path calls = g := by
  rw [added_splice, Nat.sub_eq_zero_iff_le] at hadded
  rw [removed_splice, Nat.sub_eq_zero_iff_le] at hremoved
  have hdrawn := (g.prefix_edges_withDrawnEdges path calls).sublist.eq_of_length_le hadded
  have hkept := (g.sublist_edges_withKeptEdges path calls).eq_of_length_le hremoved
  exact congrArg₂ Graph.mk nodes_withDrawnEdges (hdrawn.symm.trans hkept)

theorem graph_splice (g : Graph) (path : String) (calls : List CrossFileCall) :
    (g.splice path calls).graph =
      if (g.splice path calls).added = 0 ∧ (g.splice path calls).removed = 0 then g
      else (g.withDrawnEdges path calls).refreshEndpoints := by
  have hgraph : (g.splice path calls).graph =
      if (g.splice path calls).added == 0 && (g.splice path calls).removed == 0 then
        g.withDrawnEdges path calls
      else (g.withDrawnEdges path calls).refreshEndpoints := rfl
  rw [hgraph]
  simp only [Bool.and_eq_true, beq_iff_eq]
  split
  next hsame => exact withDrawnEdges_eq_self hsame.1 hsame.2
  next => rfl

/-- The desired links are added to the edges that stay. -/
theorem WellFormed.addsEdges_withDrawnEdges (hg : g.WellFormed) (hcalls : ∀ c ∈ calls, c.IsProper)
    (path : String) :
    AddsEdges (g.withKeptEdges path calls) (g.withDrawnEdges path calls)
      fun source target => (source, target) ∈ g.desiredLinks path calls := by
  have hdrawn : AddsEdges (g.withKeptEdges path calls) (g.withDrawnEdges path calls)
      fun source target => ∃ p ∈ (g.desiredLinks path calls).toList, source = p.1 ∧ target = p.2 := by
    refine AddsEdges.foldl (hg.filterEdges _) fun p hp h hnodes hh => ?_
    obtain ⟨c, hc, hfile, hcaller, hcallee, hs, ht⟩ :=
      (mem_desiredLinks hg).mp (Std.ExtTreeSet.mem_toList.mp hp)
    have hkeys : h.nodes.map Node.key = g.nodes.map Node.key := by rw [hnodes, withKeptEdges]
    rw [hs, ht]
    refine AddsEdges.addEdge_of_shows hh ((shows_congr hkeys).mpr hcaller)
      ((shows_congr hkeys).mpr hcallee) fun hsame => ?_
    exact hcalls c hc (hsame.1.symm.trans hfile.symm)
  refine hdrawn.congr fun source target => ?_
  constructor
  · rintro ⟨p, hp, rfl, rfl⟩
    exact Std.ExtTreeSet.mem_toList.mp hp
  · exact fun hp => ⟨_, Std.ExtTreeSet.mem_toList.mpr hp, rfl, rfl⟩

/-- `h` is `g` with the edges that lead out of a file drawn after calls. -/
structure Spliced (g : Graph) (path : String) (calls : List CrossFileCall) (h : Graph) : Prop where
  wellFormed : h.WellFormed
  keys_eq : h.nodes.map Node.key = g.nodes.map Node.key
  places_eq : h.places = g.places
  hasEdge_iff : ∀ source target, h.hasEdge source target = true ↔
    (g.withKeptEdges path calls).hasEdge source target = true ∨
      (source, target) ∈ g.desiredLinks path calls
  unnamed : ∀ e ∈ h.edges, e ∈ g.edges ∨ e = .unresolved e.source e.target
  isFresh : (∀ n ∈ g.nodes, n.IsFresh) → ∀ n ∈ h.nodes, n.IsFresh
  flagsRight : g.FlagsRight → h.FlagsRight

theorem WellFormed.spliced (hg : g.WellFormed) (hcalls : ∀ c ∈ calls, c.IsProper) (path : String) :
    g.Spliced path calls (g.splice path calls).graph := by
  have hdrawn := hg.addsEdges_withDrawnEdges hcalls path
  have hids := hdrawn.wellFormed.nodup_nodeIds
  rw [graph_splice]
  split
  next hsame =>
    refine ⟨hg, rfl, rfl, fun source target => ?_, fun e => .inl, id, id⟩
    rw [← hdrawn.hasEdge_iff, withDrawnEdges_eq_self hsame.1 hsame.2]
  next =>
    refine ⟨hdrawn.wellFormed.refreshEndpoints, ?_, ?_, fun source target => ?_, ?_,
      fun hfresh => ?_, fun _ => hdrawn.wellFormed.flagsRight_refreshEndpoints⟩
    · rw [map_key_refreshEndpoints hids, nodes_withDrawnEdges]
    · rw [places_refreshEndpoints hids, places, nodes_withDrawnEdges, places]
    · rw [hasEdge_congr (edges_refreshEndpoints hids), hdrawn.hasEdge_iff]
    · rw [edges_refreshEndpoints hids]
      exact fun e he => (hdrawn.unnamed e he).imp_left List.mem_of_mem_filter
    · exact isFresh_refreshEndpoints hids (by rwa [nodes_withDrawnEdges])

namespace Spliced

/-- Only edges that lead out of the file change. -/
theorem hasEdge_of_not_out (hh : g.Spliced path calls h) (hg : g.WellFormed)
    (hcalls : ∀ c ∈ calls, c.IsProper) (hs : g.Shows file function) (ht : g.Shows file' function')
    (hfiles : file = path → file' = path) :
    h.hasEdge (nodeId file function) (nodeId file' function') = true ↔
      g.hasEdge (nodeId file function) (nodeId file' function') = true := by
  -- A desired link would lead from the file to another one.
  have hnew : (nodeId file function, nodeId file' function') ∉ g.desiredLinks path calls := by
    rw [mem_desiredLinks_nodeId hg hs ht]
    rintro ⟨rfl, c, hc, hfile, -, hfile', -⟩
    exact hcalls c hc (hfile'.trans ((hfiles rfl).trans hfile.symm))
  rw [hh.hasEdge_iff, or_iff_left hnew, withKeptEdges, hasEdge_filter, Graph.hasEdge_iff]
  refine exists_congr fun e => and_congr_right fun he => and_iff_right_of_imp ?_
  rintro ⟨hes, het⟩
  rw [staysLinked_iff, hes, het, hg.nodeId_mem_ids_fileNodes hs, hg.nodeId_mem_ids_fileNodes ht]
  exact .inl hfiles

/-- Where no edge has been named, the edges that lead out of the file are those of the calls. -/
theorem hasEdge_out (hh : g.Spliced path calls h) (hg : g.WellFormed)
    (hunnamed : ∀ e ∈ g.edges, e = .unresolved e.source e.target) (hs : g.Shows path function)
    (ht : g.Shows file' function') (hfile : file' ≠ path) :
    h.hasEdge (nodeId path function) (nodeId file' function') = true ↔
      ∃ c ∈ calls, c.Joins path function file' function' := by
  rw [hh.hasEdge_iff, withKeptEdges, hasEdge_filter, or_iff_right_of_imp,
    mem_desiredLinks_nodeId hg hs ht, and_iff_right rfl]
  -- A kept edge between the two has no name and leads out of the file, and so is desired.
  rintro ⟨e, he, hstays, hes, het⟩
  rw [staysLinked_iff, hes, het, hg.nodeId_mem_ids_fileNodes hs, hg.nodeId_mem_ids_fileNodes ht,
    hunnamed e he] at hstays
  rcases hstays with hin | hnamed | hlink
  · exact absurd (hin rfl) hfile
  · exact absurd rfl hnamed
  · exact hlink

end Spliced

end Graph

end Flowgraph
