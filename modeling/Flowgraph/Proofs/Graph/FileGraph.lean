import Flowgraph.Proofs.Graph.FileAlone

/-!
# The part of a file

What it means that the nodes of a file, and the edges between them, are those of a call graph. The
graph made of a call graph alone is such a part, and a graph into which it is merged has it for the
file.
-/

namespace Flowgraph

namespace Graph

variable {g h : Graph} {path : String} {calls : CallGraph}

/-! ## Parts -/

/-- The nodes of a file are the functions of a call graph, each on its line, and the edges between them
are the calls that stay in the file. -/
structure Mirrors (g : Graph) (path : String) (calls : CallGraph) : Prop where
  mem_places : ∀ line function, (⟨path, line, function⟩ : Location) ∈ g.places ↔
    ∃ f, calls.get? function = some f ∧ f.startLine = line
  hasEdge_iff : ∀ caller callee, g.Shows path caller → g.Shows path callee →
    (g.hasEdge (nodeId path caller) (nodeId path callee) = true ↔ calls.Links caller callee)

theorem shows_iff_contains (hplaces : ∀ line function,
      (⟨path, line, function⟩ : Location) ∈ g.places ↔
        ∃ f, calls.get? function = some f ∧ f.startLine = line) {function : String} :
    g.Shows path function ↔ calls.contains function = true := by
  simp only [shows_iff_mem_places, hplaces, CallGraph.contains_iff]
  constructor
  · rintro ⟨-, f, hf, -⟩
    exact ⟨f, hf⟩
  · rintro ⟨f, hf⟩
    exact ⟨f.startLine, f, hf, rfl⟩

theorem Mirrors.shows_iff (hm : g.Mirrors path calls) {function : String} :
    g.Shows path function ↔ calls.contains function = true :=
  shows_iff_contains hm.mem_places

theorem Mirrors.hasFile (hm : g.Mirrors path calls) (hcalls : calls.toList ≠ []) :
    g.hasFile path = true := by
  obtain ⟨f, hf⟩ := List.exists_mem_of_ne_nil _ hcalls
  refine hasFile_iff.mpr ⟨f.name, hm.shows_iff.mpr ?_⟩
  exact CallGraph.contains_iff.mpr ⟨f, CallGraph.mem_toList.mp hf⟩

/-- A graph with the same places and edges has the same parts. -/
theorem Mirrors.congr (hm : g.Mirrors path calls) (hplaces : h.places = g.places)
    (hedges : ∀ caller callee, g.Shows path caller → g.Shows path callee →
      (h.hasEdge (nodeId path caller) (nodeId path callee) = true ↔
        g.hasEdge (nodeId path caller) (nodeId path callee) = true)) :
    h.Mirrors path calls where
  mem_places line function := by rw [hplaces, hm.mem_places]
  hasEdge_iff caller callee hcaller hcallee := by
    rw [shows_iff_mem_places, hplaces, ← shows_iff_mem_places] at hcaller hcallee
    rw [hedges caller callee hcaller hcallee, hm.hasEdge_iff caller callee hcaller hcallee]

/-- `h` is `g` with the part of a file replaced by that of a call graph. Of the edges that touch the
file from outside, those stay both ends of which do. -/
structure Redrawn (g : Graph) (path : String) (calls : CallGraph) (h : Graph) : Prop where
  wellFormed : h.WellFormed
  mirrors : h.Mirrors path calls
  mem_places : ∀ place : Location, place.file ≠ path → (place ∈ h.places ↔ place ∈ g.places)
  hasEdge_iff : ∀ file function file' function', h.Shows file function → h.Shows file' function' →
    ¬ (file = path ∧ file' = path) →
    (h.hasEdge (nodeId file function) (nodeId file' function') = true ↔
      g.hasEdge (nodeId file function) (nodeId file' function') = true)

theorem Redrawn.shows_iff (hr : g.Redrawn path calls h) {file function : String}
    (hfile : file ≠ path) : h.Shows file function ↔ g.Shows file function := by
  simp only [shows_iff_mem_places]
  exact exists_congr fun line => hr.mem_places ⟨file, line, function⟩ hfile

theorem Redrawn.hasFile_eq (hr : g.Redrawn path calls h) {file : String} (hfile : file ≠ path) :
    h.hasFile file = g.hasFile file := by
  rw [Bool.eq_iff_iff, hasFile_iff, hasFile_iff]
  exact exists_congr fun function => hr.shows_iff hfile

/-- The parts of the other files stay as they are. -/
theorem Redrawn.mirrors_of_ne (hr : g.Redrawn path calls h) {file : String} {calls' : CallGraph}
    (hfile : file ≠ path) (hm : g.Mirrors file calls') : h.Mirrors file calls' where
  mem_places line function := by
    rw [hr.mem_places _ hfile, hm.mem_places]
  hasEdge_iff caller callee hcaller hcallee := by
    rw [hr.hasEdge_iff _ _ _ _ hcaller hcallee fun hboth => hfile hboth.1]
    rw [hr.shows_iff hfile] at hcaller hcallee
    exact hm.hasEdge_iff caller callee hcaller hcallee

/-- Removing a file leaves it with an empty part. -/
theorem WellFormed.redrawn_removeFile (hg : g.WellFormed) (path : String) :
    g.Redrawn path .empty (g.removeFile path) where
  wellFormed := hg.removeFile path
  mirrors := by
    have hnone (function : String) : ¬ (g.removeFile path).Shows path function := fun hshows =>
      ((shows_removeFile hg).mp hshows).2 rfl
    refine ⟨fun line function => ?_, fun caller callee hcaller => absurd hcaller (hnone caller)⟩
    constructor
    · exact fun hplace => absurd (shows_iff_mem_places.mpr ⟨line, hplace⟩) (hnone function)
    · rintro ⟨f, hf, -⟩
      rw [CallGraph.get?_empty] at hf
      cases hf
  mem_places place hfile := by
    rw [mem_places_removeFile hg, and_iff_left hfile]
  hasEdge_iff file function file' function' hs ht _ := hasEdge_removeFile hg hs ht

/-! ## Merging -/

theorem IdsRight.append (hg : g.IdsRight) (hh : h.IdsRight)
    (hfiles : ∀ m ∈ g.nodes, ∀ n ∈ h.nodes, m.source.file ≠ n.source.file) :
    IdsRight ⟨g.nodes ++ h.nodes, g.edges⟩ where
  nodup_nodeIds := by
    simp only [nodeIds, List.map_append]
    refine hg.nodup_nodeIds.append hh.nodup_nodeIds ?_
    intro id hleft hright
    obtain ⟨m, hm, rfl⟩ := List.mem_map.mp hleft
    obtain ⟨n, hn, hid⟩ := List.mem_map.mp hright
    rw [hg.id_eq m hm, hh.id_eq n hn, nodeId_inj (hh.plain n hn) (hg.plain m hm)] at hid
    exact hfiles m hm n hn hid.1.symm
  id_eq n hn := (List.mem_append.mp hn).elim (hg.id_eq n) (hh.id_eq n)
  plain n hn := (List.mem_append.mp hn).elim (hg.plain n) (hh.plain n)

theorem WellFormed.append (hg : g.WellFormed) (hh : h.WellFormed)
    (hfiles : ∀ m ∈ g.nodes, ∀ n ∈ h.nodes, m.source.file ≠ n.source.file) :
    WellFormed ⟨g.nodes ++ h.nodes, g.edges⟩ where
  __ := hg.idsRight.append hh.idsRight hfiles
  closed e he := (hg.closed e he).imp (containsNode_mono (List.subset_append_left _ _))
    (containsNode_mono (List.subset_append_left _ _))
  simple := hg.simple
  loopless := hg.loopless

section Merge

variable (hg : g.WellFormed) (hfile : g.hasFile path = false) (hplain : calls.HasPlainNames)

include hfile

/-- A node that is there stands for a function of another file than one that comes in. -/
theorem file_ne_of_mem_ofCallGraph {m n : Node} (hm : m ∈ g.nodes)
    (hn : n ∈ (ofCallGraph calls path).nodes) : m.source.file ≠ n.source.file := by
  rw [(depicts_ofCallGraph calls path).file_eq n hn]
  exact fun heq => not_shows_of_not_hasFile hfile ⟨m, hm, heq, rfl⟩

theorem mem_places_mergeFile {place : Location} :
    place ∈ (g.mergeFile path (ofCallGraph calls path)).graph.places ↔ place ∈ g.places ∨
      place.file = path ∧ ∃ f, calls.get? place.function = some f ∧ f.startLine = place.line := by
  rw [places, nodes_mergeFile, removeFile_of_not_hasFile hfile, List.map_append, List.mem_append,
    ← places, ← places, (depicts_ofCallGraph calls path).mem_places]

include hg hplain

/-- Merging the graph of a file that has no nodes yet appends its nodes, and adds its edges. -/
theorem addsEdges_mergeFile :
    AddsEdges ⟨g.nodes ++ (ofCallGraph calls path).nodes, g.edges⟩
      (g.mergeFile path (ofCallGraph calls path)).graph fun source target =>
        (ofCallGraph calls path).hasEdge source target = true := by
  have hwf := wellFormed_ofCallGraph hplain path
  have hwhole := hg.append hwf fun m hm n hn => file_ne_of_mem_ofCallGraph hfile hm hn
  rw [mergeFile, removeFile_of_not_hasFile hfile]
  refine (AddsEdges.foldl (P := fun e source target => source = e.source ∧ target = e.target)
    hwhole fun e he h hnodes hh => ?_).congr fun source target => ?_
  · have hsub : (ofCallGraph calls path).nodes ⊆ h.nodes :=
      hnodes ▸ List.subset_append_right _ _
    obtain ⟨hs, ht⟩ := hwf.closed e he
    have hadd := AddsEdges.addEdge hh (containsNode_mono hsub hs) (containsNode_mono hsub ht)
      (hwf.loopless e he)
    rwa [← (depicts_ofCallGraph calls path).unnamed e he] at hadd
  · rw [hasEdge_iff]
    simp only [eq_comm]

theorem hasEdge_mergeFile {source target : String} :
    (g.mergeFile path (ofCallGraph calls path)).graph.hasEdge source target = true ↔
      g.hasEdge source target = true ∨ (ofCallGraph calls path).hasEdge source target = true :=
  (addsEdges_mergeFile hg hfile hplain).hasEdge_iff source target

/-- A file that comes in has no edges to the others yet, and so all flags stay right. -/
theorem flagsRight_mergeFile (hflags : g.FlagsRight) :
    (g.mergeFile path (ofCallGraph calls path)).graph.FlagsRight := by
  have hmerged := (addsEdges_mergeFile hg hfile hplain).wellFormed
  have hwf := wellFormed_ofCallGraph hplain path
  have hapart : ∀ m ∈ g.nodes, ∀ n ∈ (ofCallGraph calls path).nodes, m.id ≠ n.id := by
    intro m hm n hn
    rw [hg.id_eq m hm, hwf.id_eq n hn, ne_eq, nodeId_inj (hg.plain m hm) (hwf.plain n hn)]
    exact fun hsame => file_ne_of_mem_ofCallGraph hfile hm hn hsame.1
  -- An old node has its old edges alone, and a new one those of the graph it comes from.
  intro n hn hpending
  rw [nodes_mergeFile, removeFile_of_not_hasFile hfile, List.mem_append] at hn
  rcases hn with hn | hn
  · have hid : (ofCallGraph calls path).containsNode n.id = false := by
      rw [← Bool.not_eq_true, containsNode_iff]
      rintro ⟨m, hm, heq⟩
      exact hapart n hn m hm heq.symm
    have hsame := hg.endpoints_eq_of_apart hwf hmerged hid fun _ _ => hasEdge_mergeFile hg hfile hplain
    rw [hsame.1, hsame.2]
    exact hflags n hn hpending
  · have hid : g.containsNode n.id = false := by
      rw [← Bool.not_eq_true, containsNode_iff]
      rintro ⟨m, hm, heq⟩
      exact hapart m hm n hn heq
    have hsame := hwf.endpoints_eq_of_apart hg hmerged hid fun _ _ =>
      (hasEdge_mergeFile hg hfile hplain).trans or_comm
    rw [hsame.1, hsame.2]
    exact (depicts_ofCallGraph calls path).flagsRight n hn hpending

theorem redrawn_mergeFile :
    g.Redrawn path calls (g.mergeFile path (ofCallGraph calls path)).graph := by
  have hwf := (addsEdges_mergeFile hg hfile hplain).wellFormed
  refine ⟨hwf, ⟨fun line function => ?_, fun caller callee hcaller hcallee => ?_⟩,
    fun place hne => ?_, fun file function file' function' hs ht hne => ?_⟩
  · rw [mem_places_mergeFile hfile, or_iff_right, and_iff_right rfl]
    exact fun hplace => not_shows_of_not_hasFile hfile (shows_iff_mem_places.mpr ⟨line, hplace⟩)
  · have hold : ¬ g.hasEdge (nodeId path caller) (nodeId path callee) = true :=
      hg.not_hasEdge_of_not_hasFile hfile (hwf.plain_of_shows hcaller) (hwf.plain_of_shows hcallee)
        (.inl rfl)
    rw [hasEdge_mergeFile hg hfile hplain, (depicts_ofCallGraph calls path).hasEdge_iff, or_iff_right hold]
    constructor
    · rintro ⟨caller', callee', hlink, hs, ht⟩
      rwa [nodeId_inj_right.mp hs, nodeId_inj_right.mp ht]
    · exact fun hlink => ⟨caller, callee, hlink, rfl, rfl⟩
  · rw [mem_places_mergeFile hfile, or_iff_left fun hplace => hne hplace.1]
  -- The graph that comes in has no edges that leave the file.
  · have hnew : ¬ (ofCallGraph calls path).hasEdge (nodeId file function)
        (nodeId file' function') = true := by
      rw [(depicts_ofCallGraph calls path).hasEdge_iff]
      rintro ⟨caller, callee, hlink, hs', ht'⟩
      rw [nodeId_inj (hwf.plain_of_shows hs) (hplain _ hlink.contains_caller)] at hs'
      rw [nodeId_inj (hwf.plain_of_shows ht) (hplain _ hlink.contains_callee)] at ht'
      exact hne ⟨hs'.1, ht'.1⟩
    rw [hasEdge_mergeFile hg hfile hplain, or_iff_left hnew]

end Merge

end Graph

end Flowgraph
