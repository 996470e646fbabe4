import Flowgraph.Proofs.Resolver.Extension
import Flowgraph.Proofs.Store.Again
import Flowgraph.Proofs.Store.Contents
import Flowgraph.Syntax.Parsers

/-!
# Saving after an analysis

Right after an analysis of the workflow files, an update of one of them with the content it has can
only remove edges that lead out of it. It removes those of calls that the resolver of the store, which
knows every tracked file, has recorded with another target than the analysis.
-/

namespace Flowgraph

namespace Store

variable {s t : Store} {path content : String} {g : Graph} {contents : Contents} {r : Resolver}

/-! ## Updates with the content a file has -/

/-- Whether every edge that leads out of a file has a recorded call. -/
def BacksEdgesFrom (s : Store) (file : String) : Prop :=
  ∀ function file' function', s.graph.Shows file function → s.graph.Shows file' function' →
    file' ≠ file → s.graph.hasEdge (Graph.nodeId file function) (Graph.nodeId file' function') = true →
    s.resolver.Records file function file' function'

section Parsers

variable [Parsers]

/-- A file that is kept, and the calls of which are those that follow from the index, is current. -/
theorem Coherent.isCurrent (hs : s.Coherent) (hcontent : s.contents[path]? = some content)
    (hcalls : s.resolver.derivedCalls path = s.resolver.callsFrom path) :
    s.IsCurrent path content where
  callGraph_eq := by rw [hs.callGraphs_eq, hcontent, Option.map_some]
  content_eq := hcontent
  indexed := by
    obtain ⟨entry, hindex, hentry⟩ := hs.exists_entry path content hcontent
    have hknown := hs.mem_knownFiles path content hcontent
    refine ⟨entry, hentry, ?_⟩
    rw [Resolver.updateEntry_of_unchanged hknown hindex]
    exact Resolver.Change.rederive_eq_self hcalls.symm

/-! ## After an analysis -/

/-- The store keeps the analyzed contents, has their calls derived, and has a graph in which the calls
that `r` has recorded for these contents alone are drawn. -/
structure Analyzed (s : Store) (contents : Contents) (r : Resolver) : Prop where
  coherent : s.Coherent
  kept : ∀ path content : String, contents[path]? = some content → s.contents[path]? = some content
  derivedCalls_eq : ∀ path ∈ contents, s.resolver.derivedCalls path = s.resolver.callsFrom path
  indexes : r.Indexes contents.toList
  covers : s.graph.Covers contents.toList
  links : s.graph.LinksRecorded r

theorem Coherent.exists_analyzed (hs : s.Coherent) (hg : localAnalysis contents = .ok g)
    (hkept : ∀ path content : String, contents[path]? = some content →
      s.contents[path]? = some content) :
    ∃ t r, s.installAnalysis g contents = .ok (t, []) ∧ t.Analyzed contents r := by
  obtain ⟨r, hindexes, hcovers, hlinks⟩ := exists_covers_localAnalysis hg
  obtain ⟨affected, hagain⟩ := rederives_rederived s contents.keys
  have hinstall := hs.installAnalysis_of_kept g hkept
  refine ⟨_, r, hinstall, hs.installAnalysis hinstall, hkept, fun path hpath => ?_, hindexes, hcovers,
    hlinks⟩
  have hcalls := hagain.callsFrom_eq path
  rw [if_pos (Std.ExtTreeMap.mem_keys.mpr hpath)] at hcalls
  exact (Resolver.derivedCalls_congr hagain.index_eq hagain.knownFiles_eq).trans hcalls.symm

namespace Analyzed

variable (hs : s.Analyzed contents r)

include hs

theorem mem_knownFiles {file : String} : file ∈ r.knownFiles ↔ file ∈ contents := by
  rw [hs.indexes.mem_knownFiles, Std.ExtTreeMap.mem_iff_isSome_getElem?, Option.isSome_iff_exists]
  simp only [Std.ExtTreeMap.mem_toList_iff_getElem?_eq_some]

theorem extends_resolver : r.Extends s.resolver where
  mem_knownFiles file hfile := by
    obtain ⟨content, hmem⟩ := (hs.indexes.mem_knownFiles file).mp hfile
    have hcontent := hs.kept file content (Std.ExtTreeMap.mem_toList_iff_getElem?_eq_some.mp hmem)
    exact hs.coherent.mem_knownFiles file content hcontent
  index_eq file hfile := by
    obtain ⟨content, hmem⟩ := (hs.indexes.mem_knownFiles file).mp hfile
    have hcontent := hs.kept file content (Std.ExtTreeMap.mem_toList_iff_getElem?_eq_some.mp hmem)
    obtain ⟨entry, hindex, hentry⟩ := hs.coherent.exists_entry file content hcontent
    rw [hindex, (hs.indexes.index_eq_some file entry).mpr ⟨content, hmem, hentry⟩]

/-- What the store would draw for a file has been drawn by the analysis. -/
theorem hasEdge_of_mem_desiredLinks (hpath : path ∈ contents) :
    ∀ p ∈ s.graph.desiredLinks path (s.resolver.callsFrom path).toList,
      s.graph.hasEdge p.1 p.2 = true := by
  intro p hp
  obtain ⟨c, hc, hfile, hcaller, hcallee, hsource, htarget⟩ :=
    (Graph.mem_desiredLinks hs.covers.wellFormed).mp hp
  rw [Std.ExtTreeSet.mem_toList, ← hs.derivedCalls_eq path hpath] at hc
  have hne := Resolver.callee_file_ne_of_mem_derivedCalls hc
  obtain ⟨content, hmem⟩ := hs.covers.exists_content _ _ hcallee
  have hknown := (hs.indexes.mem_knownFiles _).mpr ⟨content, hmem⟩
  -- The callee has a node and so is analyzed, and the analysis derives the call too.
  have hderived := hs.extends_resolver.mem_derivedCalls (hs.mem_knownFiles.mpr hpath) hc hknown
  rw [← hs.indexes.settled path, Resolver.mem_callsFrom] at hderived
  rw [hsource, htarget]
  exact (hs.links _ _ _ _ hcaller hcallee hne).mpr ⟨c, hderived.1, hfile, rfl, rfl, rfl⟩

/-- Where all imports of a file lead to analyzed files, the store has recorded what the analysis has
drawn. -/
theorem backsEdgesFrom_or_leadsTo (hpath : path ∈ contents) :
    s.BacksEdgesFrom path ∨ s.resolver.LeadsTo path (· ∉ contents) := by
  by_cases hout : s.resolver.LeadsTo path (· ∉ contents)
  · exact .inr hout
  simp only [← hs.mem_knownFiles] at hout
  refine .inl fun function file' function' hcaller hcallee hne hedge => ?_
  have hderived := hs.extends_resolver.derivedCalls_eq (hs.mem_knownFiles.mpr hpath) hout
  rw [hs.derivedCalls_eq path hpath, ← hs.indexes.settled path] at hderived
  rw [Graph.records_congr hderived]
  exact (hs.links _ _ _ _ hcaller hcallee hne).mp hedge

theorem localUpdate (hcontent : contents[path]? = some content)
    (hworkflow : Relevance.isWorkflowFile path content = true) :
    ∃ u patch, s.localUpdate path content = .ok (u, some patch) ∧
      patch = { Patch.empty with edgesRemoved := patch.edgesRemoved } ∧
      (patch.isEmpty = true ↔ s.BacksEdgesFrom path) ∧
      (u.graph = s.graph ↔ s.BacksEdgesFrom path) := by
  have hpath : path ∈ contents := OrderedMap.mem_of_getElem? hcontent
  have hwf := hs.covers.wellFormed
  have hm := hs.covers.mirrors path content (Std.ExtTreeMap.mem_toList_iff_getElem?_eq_some.mpr hcontent)
  obtain ⟨hadded, hremoved, hgraph⟩ :=
    Graph.splice_of_linked hwf.nodup_nodeIds (hs.hasEdge_of_mem_desiredLinks hpath)
  have hbacks : s.graph.withKeptEdges path (s.resolver.callsFrom path).toList = s.graph ↔
      s.BacksEdgesFrom path := by
    simp only [Graph.withKeptEdges_eq_self_iff hwf hs.covers.unnamed, Graph.exists_joins_callsFrom_iff,
      BacksEdgesFrom]
  rw [hbacks] at hremoved hgraph
  have hcurrent := hs.coherent.isCurrent (hs.kept path content hcontent) (hs.derivedCalls_eq path hpath)
  have hlanguage := Relevance.isSupported_of_isAnalyzable (Bool.and_eq_true_iff.mp hworkflow).1
  refine ⟨_, _, hcurrent.localUpdate_of_drawn hlanguage hm (.inr hworkflow), ?_, ?_, hgraph⟩
  · simp [Patched.spliceFile, Patch.empty, hadded]
  · rw [← hremoved]
    simp [Patched.spliceFile, Patch.isEmpty, Patch.empty, hadded]

end Analyzed

/-! ## Runs -/

/-- What a store takes in: the files it starts with, or an edit. -/
inductive Intake where
  | seed (files : List (String × String))
  | edit (e : Edit)

def Intake.apply (s : Store) : Intake → Except ImportError Store
  | seed files => s.seed files
  | edit e => e.apply s

theorem Coherent.intake (hs : s.Coherent) {i : Intake} (h : i.apply s = .ok t) : t.Coherent := by
  cases i with
  | seed files => exact hs.seed h
  | edit e => exact hs.edit h

end Parsers

theorem getElem?_analysisFiles :
    s.analysisFiles[path]? = some content ↔
      s.contents[path]? = some content ∧ Relevance.isWorkflowFile path content = true := by
  rw [analysisFiles, Std.ExtTreeMap.getElem?_filter', Option.filter_eq_some_iff]

/-- After an analysis of the workflow files, an update of one of them with the content it has only
removes edges that lead out of it. It changes nothing exactly if each of these has a recorded call, and
so if the imports of the file lead to analyzed files alone. -/
theorem isEmpty_localUpdate_iff_backsEdgesFrom [Parsers] {intakes : List Intake}
    (h : intakes.foldlM Intake.apply empty = .ok s) :
    ∃ g t, localAnalysis s.analysisFiles = .ok g ∧ s.installAnalysis g s.analysisFiles = .ok (t, []) ∧
      ∀ path content, s.analysisFiles[path]? = some content →
        (t.BacksEdgesFrom path ∨ t.resolver.LeadsTo path (· ∉ s.analysisFiles)) ∧
        ∃ u patch, t.localUpdate path content = .ok (u, some patch) ∧
          patch = { Patch.empty with edgesRemoved := patch.edgesRemoved } ∧
          (patch.isEmpty = true ↔ t.BacksEdgesFrom path) ∧
          (u.graph = t.graph ↔ t.BacksEdgesFrom path) := by
  have hs : s.Coherent :=
    Outcome.foldlM_preserves (fun _ _ _ happly hs => hs.intake happly) coherent_empty h
  obtain ⟨g, hg⟩ : ∃ g, localAnalysis s.analysisFiles = .ok g :=
    exists_localAnalysis fun path content hcontent =>
      (Bool.and_eq_true_iff.mp (getElem?_analysisFiles.mp hcontent).2).1
  obtain ⟨t, r, hinstall, ht⟩ :=
    hs.exists_analyzed hg fun path content hcontent => (getElem?_analysisFiles.mp hcontent).1
  exact ⟨g, t, hg, hinstall, fun path content hcontent =>
    ⟨ht.backsEdgesFrom_or_leadsTo (OrderedMap.mem_of_getElem? hcontent),
      ht.localUpdate hcontent (getElem?_analysisFiles.mp hcontent).2⟩⟩

set_option maxRecDepth 100000 in
/-- The caller is updated after its callee has been seeded. -/
theorem isEmpty_localUpdate_iff_backsEdgesFrom_of_seeded_callee :
    ∃ s, [Intake.seed [("l.py", "OpenAI().chat()\ndef g(): pass")],
        .edit (.update "a.py" "OpenAI().chat()\nimport l\ndef r(): l.g()")].foldlM
          Intake.apply empty = .ok s ∧
      s.analysisFiles.keys = ["a.py", "l.py"] ∧
      ∃ g t, localAnalysis s.analysisFiles = .ok g ∧
        s.installAnalysis g s.analysisFiles = .ok (t, []) ∧
        ∀ path content, s.analysisFiles[path]? = some content →
          (t.BacksEdgesFrom path ∨ t.resolver.LeadsTo path (· ∉ s.analysisFiles)) ∧
          ∃ u patch, t.localUpdate path content = .ok (u, some patch) ∧
            patch = { Patch.empty with edgesRemoved := patch.edgesRemoved } ∧
            (patch.isEmpty = true ↔ t.BacksEdgesFrom path) ∧
            (u.graph = t.graph ↔ t.BacksEdgesFrom path) := by
  obtain ⟨s, hs, hkeys⟩ := Outcome.exists_of_map_toOption
    (f := fun s : Store => s.analysisFiles.keys) (b := ["a.py", "l.py"])
    (x := [Intake.seed [("l.py", "OpenAI().chat()\ndef g(): pass")],
        .edit (.update "a.py" "OpenAI().chat()\nimport l\ndef r(): l.g()")].foldlM
          Intake.apply empty)
    (by decide +kernel)
  exact ⟨s, hs, hkeys, isEmpty_localUpdate_iff_backsEdgesFrom hs⟩

set_option maxRecDepth 100000 in
/-- The import of the caller leads to a file that is no workflow, and in the analysis to the initial
file of a package. The update takes the edge away that the analysis has drawn. -/
theorem exists_edge_removed_after_analysis :
    ∃ s g t u patch, [Intake.edit (.update "l.py" ""),
        .edit (.update "l/__init__.py" "OpenAI().chat()\ndef g(): pass"),
        .edit (.update "a.py" "OpenAI().chat()\nimport l\ndef r(): l.g()")].foldlM
          Intake.apply empty = .ok s ∧
      localAnalysis s.analysisFiles = .ok g ∧ s.installAnalysis g s.analysisFiles = .ok (t, []) ∧
      s.analysisFiles["a.py"]? =
        some "OpenAI().chat()\nimport l\ndef r(): l.g()" ∧
      t.localUpdate "a.py" "OpenAI().chat()\nimport l\ndef r(): l.g()" =
        .ok (u, some patch) ∧
      patch.isEmpty = false ∧ t.graph.edges = [.unresolved "a.py::r" "l/__init__.py::g"] ∧
      u.graph.edges = [] := by
  have hrun : (([Intake.edit (.update "l.py" ""),
      .edit (.update "l/__init__.py" "OpenAI().chat()\ndef g(): pass"),
      .edit (.update "a.py" "OpenAI().chat()\nimport l\ndef r(): l.g()")].foldlM
        Intake.apply empty).bind fun s => (localAnalysis s.analysisFiles).bind fun g =>
      (s.installAnalysis g s.analysisFiles).bind fun installed =>
      (installed.1.localUpdate "a.py"
        "OpenAI().chat()\nimport l\ndef r(): l.g()").map fun saved =>
      (s.analysisFiles["a.py"]?, installed.2, installed.1.graph.edges, saved.2.map (·.isEmpty),
        saved.1.graph.edges)).toOption.map id =
      some (some "OpenAI().chat()\nimport l\ndef r(): l.g()", [],
        [.unresolved "a.py::r" "l/__init__.py::g"], some false, []) := by
    decide +kernel
  obtain ⟨result, hresult, rfl⟩ := Outcome.exists_of_map_toOption hrun
  obtain ⟨s, hs, hresult⟩ := Outcome.bind_eq_ok.mp hresult
  obtain ⟨g, hg, hresult⟩ := Outcome.bind_eq_ok.mp hresult
  obtain ⟨⟨t, stale⟩, hinstall, hresult⟩ := Outcome.bind_eq_ok.mp hresult
  obtain ⟨⟨u, patch⟩, hsave, hresult⟩ := Outcome.map_eq_ok.mp hresult
  simp only [Prod.mk.injEq, Option.map_eq_some_iff] at hresult
  obtain ⟨hcontent, rfl, hdrawn, ⟨patch, rfl, hpatch⟩, hsaved⟩ := hresult
  exact ⟨s, g, t, u, patch, hs, hg, hinstall, hcontent, hsave, hpatch, hdrawn, hsaved⟩

end Store

end Flowgraph
