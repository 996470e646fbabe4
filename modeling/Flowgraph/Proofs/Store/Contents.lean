import Flowgraph.Proofs.Store.InStep

/-!
# What a store keeps of its contents

The call graphs, the known files and the index of a store are those of the contents it keeps. Tracking
files again with the contents they have derives their calls again and changes nothing else.
-/

namespace Flowgraph

namespace Store

variable {s t : Store} {path content : String} {entry : IndexEntry} {g : Graph} {contents : Contents}

/-! ## Coherence -/

variable [Parsers]

/-- The call graphs, the known files and the index of the store are those of its contents. -/
structure Coherent (s : Store) : Prop where
  callGraphs_eq : ∀ path, s.callGraphs[path]? = s.contents[path]?.map (extract · path)
  mem_knownFiles : ∀ path content, s.contents[path]? = some content → path ∈ s.resolver.knownFiles
  exists_entry : ∀ path content, s.contents[path]? = some content →
    ∃ entry, s.resolver.index[path]? = some entry ∧
      IndexEntry.ofFile path content (extract content path) = .ok entry

theorem coherent_empty : empty.Coherent where
  callGraphs_eq path := by simp [empty]
  mem_knownFiles path content hcontent := by simp [empty] at hcontent
  exists_entry path content hcontent := by simp [empty] at hcontent

namespace Coherent

theorem withResolver (hs : s.Coherent) {r : Resolver} (hindex : r.index = s.resolver.index)
    (hknown : r.knownFiles = s.resolver.knownFiles) : Coherent { s with resolver := r } where
  callGraphs_eq := hs.callGraphs_eq
  mem_knownFiles path content hcontent := by
    rw [hknown]
    exact hs.mem_knownFiles path content hcontent
  exists_entry path content hcontent := by
    rw [hindex]
    exact hs.exists_entry path content hcontent

theorem withGraph (hs : s.Coherent) (g : Graph) : Coherent { s with graph := g } :=
  ⟨hs.callGraphs_eq, hs.mem_knownFiles, hs.exists_entry⟩

theorem withFile (hs : s.Coherent)
    (hentry : IndexEntry.ofFile path content (extract content path) = .ok entry) :
    (s.withFile path content (extract content path) entry).Coherent where
  callGraphs_eq file := by
    rw [getElem?_callGraphs_withFile, getElem?_contents_withFile]
    split
    next heq => rw [← heq, Option.map_some]
    next => exact hs.callGraphs_eq file
  mem_knownFiles file content' hcontent := by
    rw [getElem?_contents_withFile] at hcontent
    rw [Store.withFile, remember, Resolver.knownFiles_updateEntry, Std.ExtTreeSet.mem_insert,
      Std.LawfulEqCmp.compare_eq_iff_eq]
    split at hcontent
    next heq => exact .inl heq
    next => exact .inr (hs.mem_knownFiles file content' hcontent)
  exists_entry file content' hcontent := by
    rw [getElem?_contents_withFile] at hcontent
    simp only [Store.withFile, remember, Resolver.index_updateEntry, Std.ExtTreeMap.getElem?_insert,
      Std.LawfulEqCmp.compare_eq_iff_eq]
    split at hcontent
    next heq =>
      cases hcontent
      subst heq
      exact ⟨entry, by rw [if_pos rfl], hentry⟩
    next hne =>
      rw [if_neg hne]
      exact hs.exists_entry file content' hcontent

theorem trackFile (hs : s.Coherent) (h : s.trackFile path content = .ok t) : t.Coherent := by
  obtain ⟨entry, hentry, rfl⟩ := trackFile_eq_ok.mp h
  exact hs.withFile hentry

theorem foldlM_trackFile (hs : s.Coherent) {files : List (String × String)}
    (h : files.foldlM (fun (s : Store) f => s.trackFile f.1 f.2) s = .ok t) : t.Coherent :=
  Outcome.foldlM_preserves (fun _ _ _ htrack hs => hs.trackFile htrack) hs h

theorem seed (hs : s.Coherent) {files : List (String × String)} (h : s.seed files = .ok t) :
    t.Coherent := by
  obtain ⟨u, hu, rfl⟩ := Outcome.map_eq_ok.mp h
  exact (hs.foldlM_trackFile hu).withResolver (Resolver.index_resolveAll _)
    (Resolver.knownFiles_resolveAll _)

theorem updates (hs : s.Coherent) (h : s.Updates path content t) : t.Coherent := by
  cases h with
  | unsupported | refused => exact hs
  | remembered entry hlanguage hfile hworkflow hentry => exact hs.withFile hentry
  | patched entry old u hlanguage hfile hold hdiff hentry => exact (hs.withFile hentry).withGraph _
  | joined entry hlanguage hfile hworkflow hentry => exact (hs.withFile hentry).withGraph _

theorem removeFile (hs : s.Coherent) (path : String) : (s.removeFile path).store.Coherent := by
  obtain ⟨g, hstore, -⟩ := store_removeFile s path
  have hkept {file content : String} (hcontent : (s.contents.erase path)[file]? = some content) :
      path ≠ file ∧ s.contents[file]? = some content := by
    rwa [Std.ExtTreeMap.getElem?_erase, Option.ite_none_left_eq_some,
      Std.LawfulEqCmp.compare_eq_iff_eq] at hcontent
  rw [hstore]
  refine ⟨fun file => ?_, fun file content hcontent => ?_, fun file content hcontent => ?_⟩
  · simp only [Std.ExtTreeMap.getElem?_erase]
    split
    next => rfl
    next => exact hs.callGraphs_eq file
  · obtain ⟨hne, hcontent⟩ := hkept hcontent
    simp only [Resolver.removeFile, Std.ExtTreeSet.mem_erase, ne_eq, Std.LawfulEqCmp.compare_eq_iff_eq]
    exact ⟨hne, hs.mem_knownFiles file content hcontent⟩
  · obtain ⟨hne, hcontent⟩ := hkept hcontent
    simp only [Resolver.removeFile, Std.ExtTreeMap.getElem?_erase, Std.LawfulEqCmp.compare_eq_iff_eq,
      hne, if_false]
    exact hs.exists_entry file content hcontent

theorem edit (hs : s.Coherent) {e : Edit} (h : e.apply s = .ok t) : t.Coherent := by
  cases e with
  | update path content => exact hs.updates (updates_of_apply h)
  | remove path =>
    cases h
    exact hs.removeFile path

theorem installAnalysis (hs : s.Coherent) {result : Store × List String}
    (h : s.installAnalysis g contents = .ok result) : result.1.Coherent := by
  obtain ⟨t, ht, rfl⟩ := Outcome.map_eq_ok.mp h
  have htracked := hs.foldlM_trackFile ht
  exact ⟨htracked.callGraphs_eq, htracked.mem_knownFiles, htracked.exists_entry⟩

end Coherent

/-! ## Tracking the same contents again -/

/-- The store with the calls of files derived again. -/
def rederived (s : Store) (files : List String) : Store :=
  { s with resolver := files.foldl Resolver.rederive s.resolver }

omit [Parsers] in
theorem rederives_rederived (s : Store) (files : List String) :
    ∃ affected, Resolver.Change.Rederives ⟨s.resolver, ∅⟩ ⟨(s.rederived files).resolver, affected⟩
      files := by
  refine ⟨(files.foldl Resolver.Change.rederive ⟨s.resolver, ∅⟩).affected, ?_⟩
  have hresolver := Resolver.Change.resolver_foldl_rederive ⟨s.resolver, ∅⟩ files
  rw [rederived, ← hresolver]
  exact Resolver.Change.rederives_foldl ⟨s.resolver, ∅⟩ files

namespace Coherent

theorem rederived (hs : s.Coherent) (files : List String) : (s.rederived files).Coherent :=
  have ⟨_, hagain⟩ := rederives_rederived s files
  hs.withResolver hagain.index_eq hagain.knownFiles_eq

theorem withFile_of_kept (hs : s.Coherent) (hcontent : s.contents[path]? = some content)
    (hentry : IndexEntry.ofFile path content (extract content path) = .ok entry) :
    s.withFile path content (extract content path) entry = s.rederived [path] := by
  obtain ⟨entry', hindex, hentry'⟩ := hs.exists_entry path content hcontent
  obtain rfl : entry = entry' := Except.ok.inj (hentry.symm.trans hentry')
  have hknown := hs.mem_knownFiles path content hcontent
  have hupdate := Resolver.updateEntry_of_unchanged hknown hindex
  have hresolver := Resolver.Change.resolver_foldl_rederive ⟨s.resolver, ∅⟩ [path]
  rw [List.foldl_cons, List.foldl_nil, ← hupdate] at hresolver
  have hcallGraph : s.callGraphs[path]? = some (extract content path) := by
    rw [hs.callGraphs_eq, hcontent, Option.map_some]
  have hcontents := OrderedMap.insert_of_getElem? hcontent
  have hcallGraphs := OrderedMap.insert_of_getElem? hcallGraph
  rw [Store.withFile, remember, hresolver, hcontents, hcallGraphs]
  rfl

theorem foldlM_trackFile_of_kept (hs : s.Coherent) {files : List (String × String)}
    (hfiles : ∀ f ∈ files, s.contents[f.1]? = some f.2) :
    files.foldlM (fun (s : Store) f => s.trackFile f.1 f.2) s =
      .ok (s.rederived (files.map Prod.fst)) := by
  induction files generalizing s with
  | nil => rfl
  | cons f files ih =>
    have hcontent := hfiles f List.mem_cons_self
    obtain ⟨entry, -, hentry⟩ := hs.exists_entry f.1 f.2 hcontent
    refine Outcome.foldlM_cons_eq_ok.mpr ⟨s.rederived [f.1], trackFile_eq_ok.mpr ⟨entry, hentry, ?_⟩, ?_⟩
    · rw [hs.withFile_of_kept hcontent hentry]
    · exact ih (hs.rederived [f.1]) fun f' hf' => hfiles f' (List.mem_cons_of_mem f hf')

/-- An analysis of contents that are still current replaces the graph, derives the calls of the
analyzed files again, and leaves no path to update. -/
theorem installAnalysis_of_kept (hs : s.Coherent) (g : Graph)
    (hcontents : ∀ path content : String, contents[path]? = some content → s.contents[path]? = some content) :
    s.installAnalysis g contents = .ok ({ s.rederived contents.keys with
      graph := g
      analyzed := Std.ExtTreeSet.ofList contents.keys _ ∪ g.files }, []) := by
  have hkept : ∀ f ∈ contents.toList, s.contents[f.1]? = some f.2 := fun f hf =>
    hcontents f.1 f.2 (Std.ExtTreeMap.mem_toList_iff_getElem?_eq_some.mp hf)
  have hstale : s.stalePaths contents = [] := by
    rw [stalePaths, List.map_eq_nil_iff, List.filter_eq_nil_iff]
    intro f hf
    simp [hkept f hf]
  rw [Store.installAnalysis, hs.foldlM_trackFile_of_kept hkept, hstale,
    Std.ExtTreeMap.map_fst_toList_eq_keys]
  rfl

end Coherent

end Store

end Flowgraph
