import Flowgraph.Proofs.Analysis
import Flowgraph.Proofs.Graph.Classification
import Flowgraph.Proofs.Store.Run
import Flowgraph.Syntax.Parsers

/-!
# Graph and call graphs in step

In every state that a store reaches, each file that the graph shows at all is shown by the call graph
that the store keeps of it.
-/

namespace Flowgraph

namespace Store

variable {s t : Store} {path content : String} {entry : IndexEntry} {g : Graph}

/-- Every file with a node is shown by the call graph that the store keeps of it. -/
structure InStep (s : Store) : Prop where
  wellFormed : s.graph.WellFormed
  proper : s.resolver.IsProper
  mirrors : ∀ path, s.graph.hasFile path = true →
    ∃ calls, s.callGraphs[path]? = some calls ∧ s.graph.Mirrors path calls

/-! ## Graphs -/

theorem hasFile_congr {h : Graph} (hplaces : h.places = g.places) :
    h.hasFile path = g.hasFile path := by
  rw [Bool.eq_iff_iff, Graph.hasFile_iff, Graph.hasFile_iff]
  simp only [Graph.shows_iff_mem_places, hplaces]

/-- A graph with the same places, and the same edges within files, is in step too. -/
theorem InStep.withGraph (hs : s.InStep) (hg : g.WellFormed) (hplaces : g.places = s.graph.places)
    (hmirrors : ∀ file calls, s.graph.Mirrors file calls → g.Mirrors file calls) :
    InStep { s with graph := g } where
  wellFormed := hg
  proper := hs.proper
  mirrors file hfile := by
    rw [hasFile_congr hplaces] at hfile
    obtain ⟨calls, hcalls, hm⟩ := hs.mirrors file hfile
    exact ⟨calls, hcalls, hmirrors file calls hm⟩

theorem InStep.refreshEndpoints (hs : s.InStep) :
    InStep { s with graph := s.graph.refreshEndpoints } :=
  have hids := hs.wellFormed.nodup_nodeIds
  hs.withGraph hs.wellFormed.refreshEndpoints (Graph.places_refreshEndpoints hids) fun _ _ hm =>
    hm.congr (Graph.places_refreshEndpoints hids) fun _ _ _ _ =>
      iff_of_eq (congrArg (· = true) (Graph.hasEdge_congr (Graph.edges_refreshEndpoints hids)))

theorem InStep.spliceFiles (hs : s.InStep) (files : List String) :
    InStep { s with graph := s.graph.spliceFiles s.resolver files } :=
  have hdraws := Graph.Draws.spliceFiles hs.wellFormed hs.proper files
  hs.withGraph hdraws.wellFormed hdraws.places_eq fun _ _ => hdraws.mirrors

/-! ## Edits -/

theorem getElem?_callGraphs_withFile {calls : CallGraph} {file : String} :
    (s.withFile path content calls entry).callGraphs[file]? =
      if path = file then some calls else s.callGraphs[file]? := by
  simp only [Store.withFile, remember, Std.ExtTreeMap.getElem?_insert,
    Std.LawfulEqCmp.compare_eq_iff_eq]

theorem getElem?_contents_withFile {calls : CallGraph} {file : String} :
    (s.withFile path content calls entry).contents[file]? =
      if path = file then some content else s.contents[file]? := by
  simp only [Store.withFile, remember, Std.ExtTreeMap.getElem?_insert,
    Std.LawfulEqCmp.compare_eq_iff_eq]

theorem InStep.withFile (hs : s.InStep) (hfile : s.graph.hasFile path = false) (calls : CallGraph) :
    (s.withFile path content calls entry).InStep where
  wellFormed := hs.wellFormed
  proper := Resolver.isProper_updateEntry hs.proper path entry
  mirrors file hshown := by
    have hne : path ≠ file := by
      rintro rfl
      exact Bool.false_ne_true (hfile.symm.trans hshown)
    obtain ⟨calls', hcalls, hm⟩ := hs.mirrors file hshown
    refine ⟨calls', ?_, hm⟩
    rw [getElem?_callGraphs_withFile, if_neg hne]
    exact hcalls

/-- A store that keeps a file by the call graph by which the graph has been redrawn for it. -/
theorem InStep.redrawn (hs : s.InStep) {calls : CallGraph} (hg : s.graph.Redrawn path calls g) :
    InStep { s.withFile path content calls entry with graph := g } where
  wellFormed := hg.wellFormed
  proper := Resolver.isProper_updateEntry hs.proper path entry
  mirrors file hshown := by
    rw [getElem?_callGraphs_withFile]
    split
    next heq => exact ⟨calls, rfl, heq ▸ hg.mirrors⟩
    next hne =>
      obtain ⟨function, hshows⟩ := Graph.hasFile_iff.mp hshown
      rw [hg.shows_iff (Ne.symm hne)] at hshows
      obtain ⟨calls', hcalls, hm⟩ := hs.mirrors file (Graph.hasFile_iff.mpr ⟨function, hshows⟩)
      exact ⟨calls', hcalls, hg.mirrors_of_ne (Ne.symm hne) hm⟩

section Parsers

variable [Parsers]

/-- An update of a file in a supported language keeps it as it is, out of the graph, or redraws it. -/
theorem InStep.updates_cases (hs : s.InStep) (h : s.Updates path content t) :
    ((Language.ofPath path).isSupported = false ∧ t = s) ∨
      (s.graph.hasFile path = false ∧ Relevance.isWorkflowFile path content = false ∧
        ∃ entry, IndexEntry.ofFile path content (extract content path) = .ok entry ∧
          t = s.withFile path content (extract content path) entry) ∨
      ∃ entry g, IndexEntry.ofFile path content (extract content path) = .ok entry ∧
        s.graph.Redrawn path (extract content path) g ∧ t = s.committed path content entry g := by
  have hplain := hasPlainNames_extract content path
  cases h with
  | unsupported hlanguage => exact .inl ⟨hlanguage, rfl⟩
  | refused hfile hdiff =>
    obtain ⟨old, hold, hm⟩ := hs.mirrors path hfile
    obtain ⟨u, hu, -⟩ := hs.wellFormed.exists_redrawn_applyDiff hm hplain
    exact absurd hu (hdiff old hold u)
  | remembered entry hlanguage hfile hworkflow hentry =>
    exact .inr (.inl ⟨hfile, hworkflow, entry, hentry, rfl⟩)
  | patched entry old u hlanguage hfile hold hdiff hentry =>
    -- The graph shows the call graph kept of the file, which is the one the difference starts from.
    obtain ⟨old', hold', hm⟩ := hs.mirrors path hfile
    obtain rfl : old = old' := Option.some.inj (hold.symm.trans hold')
    obtain ⟨u', hdiff', hredrawn, -⟩ := hs.wellFormed.exists_redrawn_applyDiff hm hplain
    obtain rfl : u = u' := Except.ok.inj (hdiff.symm.trans hdiff')
    exact .inr (.inr ⟨entry, u.graph, hentry, hredrawn, rfl⟩)
  | joined entry hlanguage hfile hworkflow hentry =>
    have hredrawn := Graph.redrawn_mergeFile hs.wellFormed hfile hplain
    exact .inr (.inr ⟨entry, _, hentry, hredrawn, rfl⟩)

theorem InStep.updates (hs : s.InStep) (h : s.Updates path content t) : t.InStep := by
  rcases hs.updates_cases h with
    ⟨-, rfl⟩ | ⟨hfile, -, entry, -, rfl⟩ | ⟨entry, g, -, hredrawn, rfl⟩
  · exact hs
  · exact hs.withFile hfile _
  · exact (hs.redrawn hredrawn).spliceFiles _

omit [Parsers] in
theorem InStep.removeFile (hs : s.InStep) (path : String) : (s.removeFile path).store.InStep := by
  have hredrawn := hs.wellFormed.redrawn_removeFile path
  have hbare : InStep { s with
      graph := s.graph.removeFile path
      callGraphs := s.callGraphs.erase path
      contents := s.contents.erase path
      resolver := (s.resolver.removeFile path).resolver
      analyzed := s.analyzed.erase path } := by
    refine ⟨hredrawn.wellFormed, Resolver.isProper_removeFile hs.proper path, fun file hshown => ?_⟩
    obtain ⟨function, hshows⟩ := Graph.hasFile_iff.mp hshown
    obtain ⟨hshows, hne⟩ := (Graph.shows_removeFile hs.wellFormed).mp hshows
    obtain ⟨calls, hcalls, hm⟩ := hs.mirrors file (Graph.hasFile_iff.mpr ⟨function, hshows⟩)
    refine ⟨calls, ?_, hredrawn.mirrors_of_ne hne hm⟩
    simp only [Std.ExtTreeMap.getElem?_erase, Std.LawfulEqCmp.compare_eq_iff_eq, hne.symm, if_false]
    exact hcalls
  obtain ⟨g, hstore, rfl | rfl⟩ := store_removeFile s path
  · rw [hstore]
    exact hbare.spliceFiles _
  · rw [hstore]
    exact (hbare.spliceFiles _).refreshEndpoints

theorem InStep.edit {e : Edit} (hs : s.InStep) (h : e.apply s = .ok t) : t.InStep := by
  cases e with
  | update path content => exact hs.updates (updates_of_apply h)
  | remove path =>
    cases h
    exact hs.removeFile path

/-! ## Classifications -/

omit [Parsers] in
theorem InStep.classify (hs : s.InStep) (entries : List Classification) :
    (s.classify entries).1.InStep := by
  have hkeys := Graph.map_nodes_classify Node.key (fun _ _ => rfl) s.graph entries
  have hplaces := Graph.map_nodes_classify Node.source (fun _ _ => rfl) s.graph entries
  have hedges := Graph.edges_classify s.graph entries
  refine hs.withGraph (hs.wellFormed.congr hkeys hedges) hplaces fun file calls hm => ?_
  refine hm.congr hplaces fun _ _ _ _ => ?_
  rw [Graph.hasEdge_congr hedges]

/-! ## Tracked files -/

/-- `t` is `s` with the files of a list tracked, and with the same graph. -/
structure Tracks (s t : Store) (files : List (String × String)) : Prop where
  graph_eq : t.graph = s.graph
  proper : s.resolver.IsProper → t.resolver.IsProper
  callGraphs_of_not_mem : ∀ path, path ∉ files.map Prod.fst →
    t.callGraphs[path]? = s.callGraphs[path]?
  callGraphs_of_mem : (files.map Prod.fst).Nodup → ∀ path content, (path, content) ∈ files →
    t.callGraphs[path]? = some (extract content path)

theorem tracks_foldlM_trackFile {files : List (String × String)}
    (h : files.foldlM (fun (s : Store) f => s.trackFile f.1 f.2) s = .ok t) : s.Tracks t files := by
  induction files generalizing s with
  | nil =>
    cases h
    exact ⟨rfl, id, fun _ _ => rfl, fun _ _ _ hmem => absurd hmem List.not_mem_nil⟩
  | cons f files ih =>
    obtain ⟨u, hu, hrest⟩ := Outcome.foldlM_cons_eq_ok.mp h
    obtain ⟨entry, -, rfl⟩ := trackFile_eq_ok.mp hu
    obtain ⟨hgraph, hproper, hother, hmem⟩ := ih hrest
    refine ⟨hgraph, fun hs => hproper (Resolver.isProper_updateEntry hs f.1 entry),
      fun path hpath => ?_, fun hnodup path content hfile => ?_⟩
    · rw [List.map_cons, List.mem_cons, not_or] at hpath
      rw [hother path hpath.2, getElem?_callGraphs_withFile, if_neg (Ne.symm hpath.1)]
    · obtain ⟨hnew, hnodup⟩ := List.nodup_cons.mp hnodup
      rcases List.mem_cons.mp hfile with rfl | hfile
      · rw [hother _ hnew, getElem?_callGraphs_withFile, if_pos rfl]
      · exact hmem hnodup path content hfile

theorem inStep_seed {files : List (String × String)} (h : empty.seed files = .ok s) : s.InStep := by
  obtain ⟨t, ht, rfl⟩ := Outcome.map_eq_ok.mp h
  obtain ⟨hgraph, hproper, -, -⟩ := tracks_foldlM_trackFile ht
  refine ⟨?_, Resolver.isProper_resolveAll (hproper Resolver.isProper_empty), fun path hfile => ?_⟩
  · rw [hgraph]
    exact Graph.wellFormed_empty
  · rw [hgraph] at hfile
    cases hfile

/-! ## Analyses -/

theorem InStep.installAnalysis (hs : s.InStep) {contents : Contents} {result : Store × List String}
    (hg : localAnalysis contents = .ok g) (h : s.installAnalysis g contents = .ok result) :
    result.1.InStep := by
  obtain ⟨t, ht, rfl⟩ := Outcome.map_eq_ok.mp h
  obtain ⟨-, hproper, -, htracked⟩ := tracks_foldlM_trackFile ht
  obtain ⟨r, -, hcovers, -⟩ := exists_covers_localAnalysis hg
  -- The new graph shows the analyzed files alone, and each of them has been tracked.
  refine ⟨hcovers.wellFormed, hproper hs.proper, fun path hfile => ?_⟩
  obtain ⟨function, hshows⟩ := Graph.hasFile_iff.mp hfile
  obtain ⟨content, hmem⟩ := hcovers.exists_content path function hshows
  exact ⟨_, htracked (nodup_map_fst_toList contents) path content hmem,
    hcovers.mirrors path content hmem⟩

/-- After an analysis, the graph shows the analyzed contents. -/
theorem covers_analyze {contents : Contents} (h : (Step.analyze contents).apply s = .ok t) :
    t.graph.Covers contents.toList := by
  obtain ⟨g, hg, hinstall⟩ := Outcome.bind_eq_ok.mp h
  obtain ⟨result, hresult, rfl⟩ := Outcome.map_eq_ok.mp hinstall
  obtain ⟨u, -, rfl⟩ := Outcome.map_eq_ok.mp hresult
  obtain ⟨r, -, hcovers, -⟩ := exists_covers_localAnalysis hg
  exact hcovers

/-! ## Runs -/

theorem InStep.apply (hs : s.InStep) {step : Step} (h : step.apply s = .ok t) : t.InStep := by
  cases step with
  | edit e => exact hs.edit h
  | classify entries =>
    cases h
    exact hs.classify entries
  | analyze contents =>
    obtain ⟨g, hg, hinstall⟩ := Outcome.bind_eq_ok.mp h
    obtain ⟨result, hresult, rfl⟩ := Outcome.map_eq_ok.mp hinstall
    exact hs.installAnalysis hg hresult

theorem InStep.run {steps : List Step} (hs : s.InStep) (h : s.run steps = .ok t) : t.InStep :=
  Outcome.foldlM_preserves (fun _ _ _ happly hs => hs.apply happly) hs h

end Parsers

/-- The nodes of a file that the graph shows are its functions. -/
theorem InStep.fileNodes_perm (hs : s.InStep) {calls : CallGraph} (hm : s.graph.Mirrors path calls) :
    ((s.graph.fileNodes path).map fun n => (n.id, n.source.function, n.source.line)).Perm
      (calls.toList.map fun f => (Graph.nodeId path f.name, f.name, f.startLine)) := by
  -- Neither list holds an element twice, so that it is enough to compare their elements.
  refine (List.perm_ext_iff_of_nodup ?_ ?_).mpr ?_
  · refine List.Nodup.of_map Prod.fst ?_
    rw [List.map_map]
    exact hs.wellFormed.nodup_nodeIds.sublist (List.filter_sublist.map _)
  · refine List.Nodup.of_map (fun key => key.2.1) ?_
    rw [List.map_map]
    exact calls.nodup_map_name_toList
  · rintro ⟨id, function, line⟩
    simp only [Graph.fileNodes, List.mem_map, List.mem_filter, beq_iff_eq, Prod.mk.injEq,
      CallGraph.mem_toList]
    constructor
    · rintro ⟨n, ⟨hn, rfl⟩, rfl, rfl, rfl⟩
      obtain ⟨f, hf, hline⟩ := (hm.mem_places _ _).mp (List.mem_map_of_mem hn)
      have hname := CallGraph.name_of_get? hf
      exact ⟨f, hname ▸ hf, by rw [hname, hs.wellFormed.id_eq n hn], hname, hline⟩
    · rintro ⟨f, hf, rfl, rfl, rfl⟩
      obtain ⟨n, hn, hsource⟩ := List.mem_map.mp ((hm.mem_places f.startLine f.name).mpr ⟨f, hf, rfl⟩)
      refine ⟨n, ⟨hn, ?_⟩, ?_, ?_, ?_⟩
      · rw [hsource]
      · rw [hs.wellFormed.id_eq n hn, hsource]
      · rw [hsource]
      · rw [hsource]

/-- In every state that is reached from a seed, the nodes of a file are those of its call graph, if it
has any, and the edges between them are the calls within the file. -/
theorem mirrors_of_run [Parsers] {files : List (String × String)} {steps : List Step}
    (h : ((empty.seed files).bind fun s => s.run steps) = .ok t) (path : String) :
    t.graph.fileNodes path = [] ∨ ∃ calls, t.callGraphs[path]? = some calls ∧
      ((t.graph.fileNodes path).map fun n => (n.id, n.source.function, n.source.line)).Perm
        (calls.toList.map fun f => (Graph.nodeId path f.name, f.name, f.startLine)) ∧
      ∀ m ∈ t.graph.fileNodes path, ∀ n ∈ t.graph.fileNodes path,
        (t.graph.hasEdge m.id n.id = true ↔ calls.Links m.source.function n.source.function) := by
  obtain ⟨s, hseed, hrun⟩ := Outcome.bind_eq_ok.mp h
  have ht := (inStep_seed hseed).run hrun
  cases hfile : t.graph.hasFile path with
  | false =>
    left
    simpa [Graph.fileNodes, Graph.hasFile, List.filter_eq_nil_iff] using hfile
  | true =>
    obtain ⟨calls, hcalls, hm⟩ := ht.mirrors path hfile
    refine .inr ⟨calls, hcalls, ht.fileNodes_perm hm, fun m hm' n hn => ?_⟩
    simp only [Graph.fileNodes, List.mem_filter, beq_iff_eq] at hm' hn
    obtain ⟨hm', rfl⟩ := hm'
    obtain ⟨hn, hfile'⟩ := hn
    rw [ht.wellFormed.id_eq m hm', ht.wellFormed.id_eq n hn, hfile']
    exact hm.hasEdge_iff _ _ ⟨m, hm', rfl, rfl⟩ ⟨n, hn, hfile', rfl⟩

set_option maxRecDepth 100000 in
/-- A file is tracked, another one is drawn, and one of its two functions is classified. -/
theorem mirrors_of_run_classified :
    ∃ t, ((empty.seed [("b.py", "def h(): pass")]).bind fun s => s.run [
        .analyze ∅,
        .edit (.update "a.js" "'@mastra/'\nfunction f(){g()}\nfunction g(){}"),
        .classify [⟨"a.js::f", "llm", "F", none⟩],
        .edit (.remove "b.py")]) = .ok t ∧
      t.graph.nodes.map (fun n => (n.id, n.label)) = [("a.js::f", "F"), ("a.js::g", "g")] ∧
      (t.graph.fileNodes "a.js" = [] ∨ ∃ calls, t.callGraphs["a.js"]? = some calls ∧
        ((t.graph.fileNodes "a.js").map fun n => (n.id, n.source.function, n.source.line)).Perm
          (calls.toList.map fun f => (Graph.nodeId "a.js" f.name, f.name, f.startLine)) ∧
        ∀ m ∈ t.graph.fileNodes "a.js", ∀ n ∈ t.graph.fileNodes "a.js",
          (t.graph.hasEdge m.id n.id = true ↔ calls.Links m.source.function n.source.function)) := by
  obtain ⟨t, ht, hnodes⟩ := Outcome.exists_of_map_toOption
    (f := fun t : Store => t.graph.nodes.map fun n => (n.id, n.label))
    (b := [("a.js::f", "F"), ("a.js::g", "g")])
    (x := (empty.seed [("b.py", "def h(): pass")]).bind fun s => s.run [
        .analyze ∅,
        .edit (.update "a.js" "'@mastra/'\nfunction f(){g()}\nfunction g(){}"),
        .classify [⟨"a.js::f", "llm", "F", none⟩],
        .edit (.remove "b.py")])
    (by decide +kernel)
  exact ⟨t, ht, hnodes, mirrors_of_run ht "a.js"⟩

end Store

end Flowgraph
