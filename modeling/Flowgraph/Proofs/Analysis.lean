import Flowgraph.Analysis
import Flowgraph.Proofs.Graph.Picture
import Flowgraph.Proofs.Resolver.Confluence

/-!
# What an analysis shows

The graph of an analysis shows the analyzed files with the calls between them. Files that can be
analyzed always have such a graph.
-/

namespace Flowgraph

/-! ## Analyzable files -/

theorem Relevance.ofExtension_of_mem_analyzableExtensions : ∀ ext ∈ analyzableExtensions,
    Language.ofExtension ext ∈ [Language.python, .javaScript, .typeScript, .tsx] := by
  decide +kernel

/-- The files that can be analyzed are those of the languages whose imports can always be read. -/
theorem Relevance.ofPath_of_isAnalyzable {path : String} (h : isAnalyzable path = true) :
    Language.ofPath path ∈ [Language.python, .javaScript, .typeScript, .tsx] := by
  rw [isAnalyzable] at h
  split at h
  next ext hext =>
    rw [Language.ofPath, hext]
    exact ofExtension_of_mem_analyzableExtensions ext (List.contains_iff_mem.mp h)
  next => cases h

theorem Relevance.isSupported_of_isAnalyzable {path : String} (h : isAnalyzable path = true) :
    (Language.ofPath path).isSupported = true := by
  have hlanguage := ofPath_of_isAnalyzable h
  generalize Language.ofPath path = l at hlanguage
  revert l
  decide

theorem exists_ofFile_of_isAnalyzable {path : String} (h : Relevance.isAnalyzable path = true)
    (content : String) (calls : CallGraph) :
    ∃ entry, IndexEntry.ofFile path content calls = .ok entry := by
  have hlanguage := Relevance.ofPath_of_isAnalyzable h
  have himports : ∃ bindings, Imports.imports (Language.ofPath path) content = .ok bindings := by
    generalize Language.ofPath path = l at hlanguage
    cases l with
    | python | javaScript | typeScript | tsx => exact ⟨_, rfl⟩
    | _ => simp at hlanguage
  obtain ⟨bindings, hbindings⟩ := himports
  exact ⟨_, by rw [IndexEntry.ofFile, hbindings]; rfl⟩

/-! ## Surveys -/

/-- Where no path comes twice, that of the next file has not come yet. -/
theorem not_mem_of_nodup_fst {done todo : List (String × String)} {f : String × String}
    (hpaths : ((done ++ f :: todo).map Prod.fst).Nodup) (content : String) :
    (f.1, content) ∉ done := by
  intro hmem
  rw [List.map_append, List.nodup_append] at hpaths
  exact hpaths.2.2 f.1 (List.mem_map.mpr ⟨_, hmem, rfl⟩) f.1 List.mem_cons_self rfl

namespace Survey

variable {s t : Survey} {done todo : List (String × String)} {path content : String}

variable [Parsers]

theorem addFile_eq_ok :
    s.addFile path content = .ok t ↔
      ∃ entry, IndexEntry.ofFile path content (extract content path) = .ok entry ∧
        t = ⟨(s.graph.mergeFile path (Graph.ofCallGraph (extract content path) path)).graph,
          (s.resolver.updateEntry path entry).resolver⟩ := by
  simp only [addFile, Resolver.updateWith, Outcome.map_eq_ok, exists_exists_and_eq_and,
    eq_comm (b := t)]

/-- The files of a list are shown and indexed, with no edges between them yet. -/
structure Holds (s : Survey) (files : List (String × String)) : Prop where
  covers : s.graph.Covers files
  indexes : s.resolver.Indexes files

theorem Holds.addFile (hs : s.Holds done) (hnew : ∀ content, (path, content) ∉ done)
    (h : s.addFile path content = .ok t) : t.Holds (done ++ [(path, content)]) := by
  obtain ⟨entry, hentry, rfl⟩ := addFile_eq_ok.mp h
  exact ⟨hs.covers.mergeFile hnew content, hs.indexes.updateEntry hnew hentry⟩

theorem Holds.foldlM_addFile (hs : s.Holds done) (hpaths : ((done ++ todo).map Prod.fst).Nodup)
    (h : todo.foldlM (fun (s : Survey) f => s.addFile f.1 f.2) s = .ok t) :
    t.Holds (done ++ todo) := by
  induction todo generalizing done s with
  | nil =>
    cases h
    rwa [List.append_nil]
  | cons f todo ih =>
    obtain ⟨u, hadd, hrest⟩ := Outcome.foldlM_cons_eq_ok.mp h
    have hfirst : u.Holds (done ++ [f]) := hs.addFile (not_mem_of_nodup_fst hpaths) hadd
    rw [List.append_cons] at hpaths ⊢
    exact ih hfirst hpaths hrest

theorem exists_foldlM_addFile (todo : List (String × String))
    (hread : ∀ f ∈ todo, Relevance.isAnalyzable f.1 = true) (s : Survey) :
    ∃ t, todo.foldlM (fun (s : Survey) f => s.addFile f.1 f.2) s = .ok t := by
  induction todo generalizing s with
  | nil => exact ⟨s, rfl⟩
  | cons f todo ih =>
    obtain ⟨entry, hentry⟩ :=
      exists_ofFile_of_isAnalyzable (hread f List.mem_cons_self) f.2 (extract f.2 f.1)
    obtain ⟨t, ht⟩ := ih (fun f' hf' => hread f' (List.mem_cons_of_mem f hf')) _
    exact ⟨t, Outcome.foldlM_cons_eq_ok.mpr ⟨_, addFile_eq_ok.mpr ⟨entry, hentry, rfl⟩, ht⟩⟩

omit [Parsers] in
theorem foldl_spliceFile (paths : List String) (s : Survey) :
    paths.foldl spliceFile s = { s with graph := s.graph.spliceFiles s.resolver paths } := by
  induction paths generalizing s with
  | nil => rfl
  | cons path paths ih => exact ih (s.spliceFile path)

end Survey

/-! ## The graph of an analysis -/

variable {files : Contents} {g : Graph}

theorem nodup_map_fst_toList (files : Contents) : (files.toList.map Prod.fst).Nodup := by
  rw [Std.ExtTreeMap.map_fst_toList_eq_keys]
  exact files.nodup_keys

variable [Parsers]

theorem localAnalysis_eq_ok :
    localAnalysis files = .ok g ↔ ∃ s : Survey,
      files.toList.foldlM (fun (s : Survey) f => s.addFile f.1 f.2) ⟨.empty, .empty⟩ = .ok s ∧
        g = s.graph.spliceFiles s.resolver files.keys := by
  simp only [localAnalysis, Outcome.map_eq_ok, Survey.foldl_spliceFile, eq_comm (b := g)]

/-- An analysis shows the files, and all calls that a resolver records for them. -/
theorem exists_covers_localAnalysis (h : localAnalysis files = .ok g) :
    ∃ r : Resolver, r.Indexes files.toList ∧ g.Covers files.toList ∧ g.LinksRecorded r := by
  obtain ⟨s, hs, rfl⟩ := localAnalysis_eq_ok.mp h
  have hstart : Survey.Holds ⟨.empty, .empty⟩ [] := ⟨Graph.covers_empty, .empty⟩
  have hholds : s.Holds files.toList := hstart.foldlM_addFile (nodup_map_fst_toList files) hs
  have hproper := hholds.indexes.settled.isProper
  have hdraws := Graph.Draws.spliceFiles hholds.covers.wellFormed hproper files.keys
  refine ⟨s.resolver, hholds.indexes, hholds.covers.spliceFiles hproper files.keys, ?_⟩
  intro file function file' function' hshows hshows' hne
  rw [hdraws.shows_iff] at hshows hshows'
  refine hdraws.hasEdge_out hholds.covers.unnamed file function file' function' hshows hshows' ?_ hne
  obtain ⟨content, hmem⟩ := hholds.covers.exists_content file function hshows
  rw [← Std.ExtTreeMap.map_fst_toList_eq_keys]
  exact List.mem_map.mpr ⟨_, hmem, rfl⟩

/-- Files that can be analyzed have an analysis. -/
theorem exists_localAnalysis
    (hfiles : ∀ path content, files[path]? = some content → Relevance.isAnalyzable path = true) :
    ∃ g, localAnalysis files = .ok g := by
  have hread : ∀ f ∈ files.toList, Relevance.isAnalyzable f.1 = true := fun f hf =>
    hfiles f.1 f.2 (Std.ExtTreeMap.mem_toList_iff_getElem?_eq_some.mp hf)
  obtain ⟨s, hs⟩ := Survey.exists_foldlM_addFile files.toList hread ⟨.empty, .empty⟩
  exact ⟨_, localAnalysis_eq_ok.mpr ⟨s, hs, rfl⟩⟩

end Flowgraph
