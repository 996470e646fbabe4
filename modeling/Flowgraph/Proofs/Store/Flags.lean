import Flowgraph.Proofs.Store.Reports
import Flowgraph.Syntax.Parsers

/-!
# Flags over runs

The entry and exit flags of every pending node agree with the edges in every state that a store
reaches, although they are brought up to date only where something has been reported to change.
-/

namespace Flowgraph

namespace Store

variable {s t : Store} {path content : String} {g : Graph}

/-! ## Edits -/

section Parsers

variable [Parsers]

theorem InStep.flagsRight_committed (hs : s.InStep) (entry : IndexEntry) (hg : g.WellFormed)
    (hflags : g.FlagsRight) : (s.committed path content entry g).graph.FlagsRight :=
  have hproper := Resolver.isProper_updateEntry hs.proper path entry
  (Graph.Draws.spliceFiles hg hproper _).flagsRight hflags

theorem InStep.flagsRight_updates (hs : s.InStep) (hflags : s.graph.FlagsRight)
    (h : s.Updates path content t) : t.graph.FlagsRight := by
  have hplain := hasPlainNames_extract content path
  cases h with
  | unsupported | refused | remembered => exact hflags
  | patched entry old u hlanguage hfile hold hdiff =>
    refine hs.flagsRight_committed entry (hs.wellFormed.applyDiff hplain hdiff) ?_
    exact hs.wellFormed.flagsRight_applyDiff hflags hplain
      (fun _ => CallGraph.not_mem_addedFunctions_of_mem_removedFunctions) hdiff
  | joined entry hlanguage hfile =>
    refine hs.flagsRight_committed entry
      (Graph.addsEdges_mergeFile hs.wellFormed hfile hplain).wellFormed ?_
    exact Graph.flagsRight_mergeFile hs.wellFormed hfile hplain hflags

omit [Parsers] in
theorem InStep.flagsRight_removeFile (hs : s.InStep) (hflags : s.graph.FlagsRight) (path : String) :
    (s.removeFile path).store.graph.FlagsRight := by
  cases hempty : (s.removeFile path).patch.isEmpty with
  -- The flags are not brought up to date here, and have not changed.
  | true =>
    have hsame := (reports_removeFile hs.wellFormed.idsRight path).2.of_isEmpty hempty
    exact hsame.flagsRight hflags
  | false =>
    rw [graph_removeFile, hempty, if_neg Bool.false_ne_true]
    exact (wellFormed_graphWithout hs.wellFormed hs.proper path).flagsRight_refreshEndpoints

theorem InStep.flagsRight_edit (hs : s.InStep) (hflags : s.graph.FlagsRight) {e : Edit}
    (h : e.apply s = .ok t) : t.graph.FlagsRight := by
  cases e with
  | update path content => exact hs.flagsRight_updates hflags (updates_of_apply h)
  | remove path =>
    cases h
    exact hs.flagsRight_removeFile hflags path

/-! ## Steps -/

omit [Parsers] in
theorem InStep.flagsRight_classify (hs : s.InStep) (hflags : s.graph.FlagsRight)
    (entries : List Classification) : (s.classify entries).1.graph.FlagsRight := by
  refine hflags.of_edges_eq (Graph.map_nodes_classify Node.key (fun _ _ => rfl) s.graph entries)
    (Graph.edges_classify s.graph entries) fun n hn hpending => ?_
  -- A node that is still pending has not been touched.
  simp only [Store.classify, Graph.nodes_classify hs.wellFormed.nodup_nodeIds] at hn
  obtain ⟨m, hm, rfl⟩ := List.mem_map.mp hn
  rcases m.classifyFirst_eq_or entries with heq | ⟨-, c, -, heq⟩
  · exact ⟨m, hm, m.source.line, heq⟩
  · rw [heq] at hpending
    cases hpending

theorem InStep.flagsRight_apply (hs : s.InStep) (hflags : s.graph.FlagsRight) {step : Step}
    (h : step.apply s = .ok t) : t.graph.FlagsRight := by
  cases step with
  | edit e => exact hs.flagsRight_edit hflags h
  | classify entries =>
    cases h
    exact hs.flagsRight_classify hflags entries
  | analyze contents => exact (covers_analyze h).flagsRight

/-! ## Runs -/

theorem flagsRight_seed {files : List (String × String)} (h : empty.seed files = .ok s) :
    s.graph.FlagsRight := by
  obtain ⟨u, hu, rfl⟩ := Outcome.map_eq_ok.mp h
  have hgraph := (tracks_foldlM_trackFile hu).graph_eq
  simp only [hgraph]
  exact Graph.flagsRight_empty

theorem InStep.flagsRight_run (hs : s.InStep) (hflags : s.graph.FlagsRight) {steps : List Step}
    (h : s.run steps = .ok t) : t.InStep ∧ t.graph.FlagsRight :=
  Outcome.foldlM_preserves (P := fun s : Store => s.InStep ∧ s.graph.FlagsRight)
    (fun _ _ _ happly ⟨hs, hflags⟩ => ⟨hs.apply happly, hs.flagsRight_apply hflags happly⟩)
    ⟨hs, hflags⟩ h

/-- In every state that is reached from a seed, a pending node is an entry where no edge leads to it
from another node, and an exit where none leads from it to another node. -/
theorem flags_of_run {files : List (String × String)} {steps : List Step}
    (h : ((empty.seed files).bind fun s => s.run steps) = .ok t) :
    ∀ n ∈ t.graph.nodes, n.pending = true →
      (n.isEntryPoint = true ↔ ¬ ∃ e ∈ t.graph.edges, e.source ≠ n.id ∧ e.target = n.id) ∧
      (n.isExitPoint = true ↔ ¬ ∃ e ∈ t.graph.edges, e.source = n.id ∧ e.target ≠ n.id) := by
  obtain ⟨s, hseed, hrun⟩ := Outcome.bind_eq_ok.mp h
  obtain ⟨ht, hflags⟩ := (inStep_seed hseed).flagsRight_run (flagsRight_seed hseed) hrun
  intro n hn hpending
  obtain ⟨hentry, hexit⟩ := hflags n hn hpending
  rw [hentry, hexit, ht.wellFormed.isEntry_iff_edges, ht.wellFormed.isExit_iff_edges]
  exact ⟨Iff.rfl, Iff.rfl⟩

end Parsers

set_option maxRecDepth 100000 in
/-- A file comes that calls another one. What it calls is no entry any more. -/
theorem flags_of_run_called :
    ∃ t, ((empty.seed [("l.py", "OpenAI().chat()\ndef g(): pass")]).bind fun s => s.run [
        .analyze ∅,
        .edit (.update "l.py" "OpenAI().chat()\ndef g(): pass"),
        .edit (.update "a.py" "OpenAI().chat()\nimport l\ndef r(): l.g()")]) = .ok t ∧
      t.graph.nodes.map (fun n => (n.id, n.isEntryPoint, n.isExitPoint)) =
        [("l.py::g", false, true), ("a.py::r", true, false)] ∧
      ∀ n ∈ t.graph.nodes, n.pending = true →
        (n.isEntryPoint = true ↔ ¬ ∃ e ∈ t.graph.edges, e.source ≠ n.id ∧ e.target = n.id) ∧
        (n.isExitPoint = true ↔ ¬ ∃ e ∈ t.graph.edges, e.source = n.id ∧ e.target ≠ n.id) := by
  obtain ⟨t, ht, hnodes⟩ := Outcome.exists_of_map_toOption
    (f := fun t : Store => t.graph.nodes.map fun n => (n.id, n.isEntryPoint, n.isExitPoint))
    (b := [("l.py::g", false, true), ("a.py::r", true, false)])
    (x := (empty.seed [("l.py", "OpenAI().chat()\ndef g(): pass")]).bind fun s => s.run [
        .analyze ∅,
        .edit (.update "l.py" "OpenAI().chat()\ndef g(): pass"),
        .edit (.update "a.py" "OpenAI().chat()\nimport l\ndef r(): l.g()")])
    (by decide +kernel)
  exact ⟨t, ht, hnodes, flags_of_run ht⟩

end Store

end Flowgraph
