import Flowgraph.Proofs.Analysis
import Flowgraph.Proofs.Store.Run
import Flowgraph.Syntax.Parsers

/-!
# Updates and analyses agree

Updating an empty store file by file, in any order, leads to the graph of the analysis of all the
files.
-/

namespace Flowgraph

namespace Store

variable {s t : Store} {done todo : List (String × String)} {path content : String}

section Parsers

variable [Parsers]

/-- The store shows and has indexed the files of a list, and all calls between them are drawn. -/
structure Pictures (s : Store) (files : List (String × String)) : Prop where
  covers : s.graph.Covers files
  indexes : s.resolver.Indexes files
  links : s.graph.LinksRecorded s.resolver

theorem pictures_empty : empty.Pictures [] where
  covers := Graph.covers_empty
  indexes := .empty
  links file function file' function' hshows := by
    obtain ⟨n, hn, -⟩ := hshows
    exact absurd hn List.not_mem_nil

/-- With a new file come its own calls, and those of the other files that lead to it. -/
theorem Pictures.update (hs : s.Pictures done) (hnew : ∀ content, (path, content) ∉ done)
    (hworkflow : Relevance.isWorkflowFile path content = true)
    (h : (Edit.update path content).apply s = .ok t) : t.Pictures (done ++ [(path, content)]) := by
  have hanalyzable : Relevance.isAnalyzable path = true := (Bool.and_eq_true_iff.mp hworkflow).1
  have hnone := hs.covers.hasFile_eq_false hnew
  cases updates_of_apply h with
  | unsupported hlanguage =>
    rw [Relevance.isSupported_of_isAnalyzable hanalyzable] at hlanguage
    cases hlanguage
  | refused hfile | patched entry old u hlanguage hfile =>
    rw [hnone] at hfile
    cases hfile
  | remembered entry hlanguage hfile hnot =>
    rw [hworkflow] at hnot
    cases hnot
  | joined entry hlanguage hfile hworkflow hentry =>
    have hindexes := hs.indexes.updateEntry hnew hentry
    have hproper := hindexes.settled.isProper
    have hnone (file function function' : String) :
        ¬ s.resolver.Records file function path function' := fun hrecords => by
      obtain ⟨content, hmem⟩ := hs.indexes.exists_content_of_records hrecords
      exact hnew content hmem
    refine ⟨(hs.covers.mergeFile hnew content).spliceFiles hproper _, hindexes,
      hs.covers.linksRecorded_join hnew content hs.links hproper hnone fun file hdrawn => ?_⟩
    rw [Std.ExtTreeSet.mem_toList, Std.ExtTreeSet.mem_insert, Std.LawfulEqCmp.compare_eq_iff_eq,
      not_or, Resolver.mem_affected_updateEntry, not_not] at hdrawn
    exact hdrawn.imp_left Ne.symm

theorem Pictures.exists_updates (hs : s.Pictures done)
    (hpaths : ((done ++ todo).map Prod.fst).Nodup)
    (hworkflow : ∀ f ∈ todo, Relevance.isWorkflowFile f.1 f.2 = true) :
    ∃ t, todo.foldlM (fun (s : Store) f => (Edit.update f.1 f.2).apply s) s = .ok t ∧
      t.Pictures (done ++ todo) := by
  induction todo generalizing done s with
  | nil => exact ⟨s, rfl, by rwa [List.append_nil]⟩
  | cons f todo ih =>
    have hf := hworkflow f List.mem_cons_self
    have hanalyzable := (Bool.and_eq_true_iff.mp hf).1
    obtain ⟨entry, hentry⟩ := exists_ofFile_of_isAnalyzable hanalyzable f.2 (extract f.2 f.1)
    obtain ⟨u, hu⟩ := exists_apply_update (s := s) hentry
    have hfirst : u.Pictures (done ++ [f]) := hs.update (not_mem_of_nodup_fst hpaths) hf hu
    rw [List.append_cons] at hpaths ⊢
    obtain ⟨t, ht, hpictures⟩ :=
      ih hfirst hpaths fun f' hf' => hworkflow f' (List.mem_cons_of_mem f hf')
    exact ⟨t, Outcome.foldlM_cons_eq_ok.mpr ⟨u, hu, ht⟩, hpictures⟩

/-- Updating an empty store once per file, in any order, gives the graph of the analysis of the
files. -/
theorem updates_perm_localAnalysis {files : Contents} {order : List (String × String)}
    (hfiles : ∀ path content, files[path]? = some content →
      Relevance.isWorkflowFile path content = true)
    (horder : order.Perm files.toList) :
    ∃ t g, order.foldlM (fun (s : Store) f => (Edit.update f.1 f.2).apply s) empty = .ok t ∧
      localAnalysis files = .ok g ∧ t.graph.nodes.Perm g.nodes ∧ t.graph.edges.Perm g.edges := by
  have hworkflow : ∀ f ∈ order, Relevance.isWorkflowFile f.1 f.2 = true := fun f hf =>
    hfiles f.1 f.2 (Std.ExtTreeMap.mem_toList_iff_getElem?_eq_some.mp (horder.mem_iff.mp hf))
  have hpaths : (([] ++ order).map Prod.fst).Nodup :=
    (horder.map Prod.fst).nodup_iff.mpr (nodup_map_fst_toList files)
  obtain ⟨t, ht, hpictures⟩ := pictures_empty.exists_updates hpaths hworkflow
  obtain ⟨g, hg⟩ := exists_localAnalysis fun path content hfile =>
    (Bool.and_eq_true_iff.mp (hfiles path content hfile)).1
  obtain ⟨r, hr, hcovers, hlinks⟩ := exists_covers_localAnalysis hg
  have hmem : ∀ f, f ∈ [] ++ order ↔ f ∈ files.toList := fun f => horder.mem_iff
  obtain rfl : t.resolver = r := hpictures.indexes.eq hr hmem
  exact ⟨t, g, ht, hg, hpictures.covers.nodes_perm hcovers hmem hpictures.links hlinks,
    hpictures.covers.edges_perm hcovers hmem hpictures.links hlinks⟩

end Parsers

set_option maxRecDepth 100000 in
/-- A caller is updated before the file that it calls. -/
theorem updates_perm_localAnalysis_of_late_callee :
    ∃ t g, [("a.js", "'@mastra/'\nimport * as l from './l'\nfunction r(){l.g()}"),
        ("l.js", "'@mastra/'\nfunction g(){}")].foldlM
          (fun (s : Store) f => (Edit.update f.1 f.2).apply s) empty = .ok t ∧
      localAnalysis (.ofList [("l.js", "'@mastra/'\nfunction g(){}"),
        ("a.js", "'@mastra/'\nimport * as l from './l'\nfunction r(){l.g()}")]) = .ok g ∧
      t.graph.nodes.Perm g.nodes ∧ t.graph.edges.Perm g.edges := by
  have hworkflow : ∀ f ∈ (Std.ExtTreeMap.ofList [("l.js", "'@mastra/'\nfunction g(){}"),
      ("a.js", "'@mastra/'\nimport * as l from './l'\nfunction r(){l.g()}")] : Contents).toList,
      Relevance.isWorkflowFile f.1 f.2 = true := by
    decide +kernel
  refine updates_perm_localAnalysis (fun path content hfile => ?_) (List.Perm.of_eq ?_)
  · exact hworkflow (path, content) (Std.ExtTreeMap.mem_toList_iff_getElem?_eq_some.mpr hfile)
  · decide +kernel

end Store

end Flowgraph
