import Flowgraph.Proofs.Graph.Altering
import Flowgraph.Proofs.Store.InStep
import Flowgraph.Syntax.Parsers

/-!
# Well-formed graphs over whole runs

No operation of a store makes its graph ill-formed, however the operations follow one another. The
baselines of the files do not matter: an analysis that is put in place may come with any graph, as long
as that graph is well formed itself.
-/

namespace Flowgraph

namespace Store

variable {s t : Store} {path content : String} {g : Graph} {contents : Contents}

/-! ## Operations -/

/-- An operation on a store. The graph of an analysis can be any graph. -/
inductive Operation where
  | seed (files : List (String × String))
  | track (path content : String)
  | edit (e : Edit)
  | classify (entries : List Classification)
  | install (graph : Graph) (contents : Contents)

def Operation.apply [Parsers] (s : Store) : Operation → Except ImportError Store
  | seed files => s.seed files
  | track path content => s.trackFile path content
  | edit e => e.apply s
  | classify entries => .ok (s.classify entries).1
  | install graph contents => (s.installAnalysis graph contents).map (·.1)

/-! ## What an operation keeps -/

/-- The graph is well formed, and no recorded call stays in its file. -/
structure Sound (s : Store) : Prop where
  wellFormed : s.graph.WellFormed
  proper : s.resolver.IsProper

theorem sound_empty : empty.Sound := ⟨Graph.wellFormed_empty, Resolver.isProper_empty⟩

namespace Sound

variable [Parsers]

theorem foldlM_trackFile (hs : s.Sound) {files : List (String × String)}
    (h : files.foldlM (fun (s : Store) f => s.trackFile f.1 f.2) s = .ok t) : t.Sound := by
  have htracks := tracks_foldlM_trackFile h
  refine ⟨?_, htracks.proper hs.proper⟩
  rw [htracks.graph_eq]
  exact hs.wellFormed

theorem trackFile (hs : s.Sound) (h : s.trackFile path content = .ok t) : t.Sound := by
  obtain ⟨entry, -, rfl⟩ := trackFile_eq_ok.mp h
  exact ⟨hs.wellFormed, Resolver.isProper_updateEntry hs.proper path entry⟩

theorem seed (hs : s.Sound) {files : List (String × String)} (h : s.seed files = .ok t) : t.Sound := by
  obtain ⟨u, hu, rfl⟩ := Outcome.map_eq_ok.mp h
  have htracked := hs.foldlM_trackFile hu
  exact ⟨htracked.wellFormed, Resolver.isProper_resolveAll htracked.proper⟩

/-- The edges between files are drawn by calls that lead from one file to another. -/
theorem committed (hs : s.Sound) (entry : IndexEntry) (hg : g.WellFormed) :
    (s.committed path content entry g).Sound := by
  have hproper := Resolver.isProper_updateEntry hs.proper path entry
  exact ⟨(Graph.Draws.spliceFiles hg hproper _).wellFormed, hproper⟩

theorem updates (hs : s.Sound) (h : s.Updates path content t) : t.Sound := by
  have hplain := hasPlainNames_extract content path
  cases h with
  | unsupported | refused => exact hs
  | remembered entry => exact ⟨hs.wellFormed, Resolver.isProper_updateEntry hs.proper path entry⟩
  | patched entry old u hlanguage hfile hold hdiff =>
    exact hs.committed entry (hs.wellFormed.applyDiff hplain hdiff)
  | joined entry hlanguage hfile =>
    exact hs.committed entry (Graph.addsEdges_mergeFile hs.wellFormed hfile hplain).wellFormed

omit [Parsers] in
theorem removeFile (hs : s.Sound) (path : String) : (s.removeFile path).store.Sound := by
  have hproper := Resolver.isProper_removeFile hs.proper path
  have hwithout := wellFormed_graphWithout hs.wellFormed hs.proper path
  obtain ⟨g, hstore, rfl | rfl⟩ := store_removeFile s path
  · rw [hstore]
    exact ⟨hwithout, hproper⟩
  · rw [hstore]
    exact ⟨hwithout.refreshEndpoints, hproper⟩

omit [Parsers] in
theorem classify (hs : s.Sound) (entries : List Classification) : (s.classify entries).1.Sound := by
  have hkeys := Graph.map_nodes_classify Node.key (fun _ _ => rfl) s.graph entries
  exact ⟨hs.wellFormed.congr hkeys (Graph.edges_classify s.graph entries), hs.proper⟩

theorem installAnalysis (hs : s.Sound) (hg : g.WellFormed) {result : Store × List String}
    (h : s.installAnalysis g contents = .ok result) : result.1.Sound := by
  obtain ⟨u, hu, rfl⟩ := Outcome.map_eq_ok.mp h
  exact ⟨hg, (hs.foldlM_trackFile hu).proper⟩

theorem apply (hs : s.Sound) {op : Operation}
    (hinstall : ∀ graph contents, op = .install graph contents → graph.WellFormed)
    (h : op.apply s = .ok t) : t.Sound := by
  cases op with
  | seed files => exact hs.seed h
  | track path content => exact hs.trackFile h
  | edit e =>
    cases e with
    | update path content => exact hs.updates (updates_of_apply h)
    | remove path =>
      cases h
      exact hs.removeFile path
  | classify entries =>
    cases h
    exact hs.classify entries
  | install graph contents =>
    obtain ⟨result, hresult, rfl⟩ := Outcome.map_eq_ok.mp h
    exact hs.installAnalysis (hinstall graph contents rfl) hresult

end Sound

/-! ## Runs -/

/-- In every state that is reached from the empty store, the graph is well formed, if every graph that
an analysis has put in place was. -/
theorem wellFormed_of_operations [Parsers] {ops : List Operation}
    (hinstalls : ∀ graph contents, Operation.install graph contents ∈ ops → graph.WellFormed)
    (h : ops.foldlM Operation.apply empty = .ok t) : t.graph.WellFormed := by
  have ht : t.Sound := by
    refine Outcome.foldlM_preserves_of_mem (fun op hop s t happly hs => ?_) sound_empty h
    refine hs.apply (fun graph contents heq => ?_) happly
    exact hinstalls graph contents (heq ▸ hop)
  exact ht.wellFormed

set_option maxRecDepth 100000 in
/-- An analysis with a classified node is put in place. Its file is tracked and updated, and the file
that has been seeded goes. -/
theorem wellFormed_of_operations_installed :
    ∃ t, [.seed [("b.py", "def h(): pass")],
        .install ⟨[⟨"c.py::k", "K", "llm", ⟨"c.py", 1, "k"⟩, true, true, false, none⟩], []⟩ ∅,
        .track "c.py" "def k(): pass",
        .edit (.update "c.py" "def k(): m()\ndef m(): pass"),
        .classify [⟨"c.py::m", "tool", "M", none⟩],
        .edit (.remove "b.py")].foldlM Operation.apply empty = .ok t ∧
      t.graph.nodes.map (fun n => (n.id, n.label)) = [("c.py::k", "K"), ("c.py::m", "M")] ∧
      t.graph.edges = [.unresolved "c.py::k" "c.py::m"] ∧ t.graph.WellFormed := by
  obtain ⟨t, ht, hgraph⟩ := Outcome.exists_of_map_toOption
    (f := fun t : Store => (t.graph.nodes.map fun n => (n.id, n.label), t.graph.edges))
    (b := ([("c.py::k", "K"), ("c.py::m", "M")], [.unresolved "c.py::k" "c.py::m"]))
    (x := [.seed [("b.py", "def h(): pass")],
        .install ⟨[⟨"c.py::k", "K", "llm", ⟨"c.py", 1, "k"⟩, true, true, false, none⟩], []⟩ ∅,
        .track "c.py" "def k(): pass",
        .edit (.update "c.py" "def k(): m()\ndef m(): pass"),
        .classify [⟨"c.py::m", "tool", "M", none⟩],
        .edit (.remove "b.py")].foldlM Operation.apply empty)
    (by decide +kernel)
  obtain ⟨hnodes, hedges⟩ := Prod.mk.inj hgraph
  refine ⟨t, ht, hnodes, hedges, wellFormed_of_operations (fun graph contents hop => ?_) ht⟩
  simp only [List.mem_cons, List.not_mem_nil, reduceCtorEq, or_false, false_or,
    Operation.install.injEq] at hop
  obtain ⟨rfl, -⟩ := hop
  refine ⟨List.nodup_singleton _, ?_, ?_, ?_, List.nodup_nil, ?_⟩
  · decide
  · intro n hn
    obtain rfl := List.mem_singleton.mp hn
    unfold IsPlainName
    decide
  · intro e he
    cases he
  · intro e he
    cases he

end Store

end Flowgraph
