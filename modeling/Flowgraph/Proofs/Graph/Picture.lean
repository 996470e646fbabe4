import Flowgraph.Proofs.FunctionNames
import Flowgraph.Proofs.Graph.Drawing

/-!
# Pictures of files

A graph that shows the files of a list, each by the call graph of its content, and nothing else. The
order of its nodes and edges apart, it is told by the files and the calls recorded between them.
-/

namespace Flowgraph

namespace Graph

variable [Parsers]

/-- `g` shows the files of a list, of which no node has been classified and no edge named. -/
structure Covers (g : Graph) (files : List (String × String)) : Prop where
  wellFormed : g.WellFormed
  isFresh : ∀ n ∈ g.nodes, n.IsFresh
  flagsRight : g.FlagsRight
  unnamed : ∀ e ∈ g.edges, e = .unresolved e.source e.target
  mirrors : ∀ path content, (path, content) ∈ files → g.Mirrors path (extract content path)
  exists_content : ∀ path function, g.Shows path function → ∃ content, (path, content) ∈ files

/-- Whether `g` links functions of two files exactly where a call is recorded. -/
def LinksRecorded (g : Graph) (r : Resolver) : Prop :=
  ∀ file function file' function', g.Shows file function → g.Shows file' function' → file' ≠ file →
    (g.hasEdge (nodeId file function) (nodeId file' function') = true ↔
      r.Records file function file' function')

variable {g h : Graph} {r : Resolver} {files files' : List (String × String)} {path content : String}

theorem covers_empty : empty.Covers [] where
  wellFormed := wellFormed_empty
  isFresh n hn := absurd hn List.not_mem_nil
  flagsRight := flagsRight_empty
  unnamed e he := absurd he List.not_mem_nil
  mirrors path content hfile := absurd hfile List.not_mem_nil
  exists_content path function hshows := by
    obtain ⟨n, hn, -⟩ := hshows
    exact absurd hn List.not_mem_nil

namespace Covers

theorem hasFile_eq_false (hg : g.Covers files) (hnew : ∀ content, (path, content) ∉ files) :
    g.hasFile path = false := by
  rw [← Bool.not_eq_true, hasFile_iff]
  rintro ⟨function, hshows⟩
  obtain ⟨content, hfile⟩ := hg.exists_content path function hshows
  exact hnew content hfile

/-! ## Adding a file -/

theorem mergeFile (hg : g.Covers files) (hnew : ∀ content, (path, content) ∉ files)
    (content : String) : (g.mergeFile path (ofCallGraph (extract content path) path)).graph.Covers
      (files ++ [(path, content)]) := by
  have hfile := hg.hasFile_eq_false hnew
  have hplain := hasPlainNames_extract content path
  have hadds := addsEdges_mergeFile hg.wellFormed hfile hplain
  have hredrawn := redrawn_mergeFile hg.wellFormed hfile hplain
  refine ⟨hredrawn.wellFormed, fun n hn => ?_,
    flagsRight_mergeFile hg.wellFormed hfile hplain hg.flagsRight,
    hadds.unnamed_of_unnamed hg.unnamed, fun path' content' hmem => ?_,
    fun path' function hshows => ?_⟩
  · rw [nodes_mergeFile, removeFile_of_not_hasFile hfile, List.mem_append] at hn
    exact hn.elim (hg.isFresh n) ((depicts_ofCallGraph _ path).fresh n)
  · rcases List.mem_append.mp hmem with hold | hsame
    · refine hredrawn.mirrors_of_ne ?_ (hg.mirrors path' content' hold)
      rintro rfl
      exact hnew content' hold
    · obtain ⟨rfl, rfl⟩ := Prod.mk.inj (List.mem_singleton.mp hsame)
      exact hredrawn.mirrors
  · by_cases hpath : path' = path
    · subst hpath
      exact ⟨content, List.mem_append_right _ (List.mem_singleton_self _)⟩
    · rw [hredrawn.shows_iff hpath] at hshows
      obtain ⟨content', hmem⟩ := hg.exists_content path' function hshows
      exact ⟨content', List.mem_append_left _ hmem⟩

/-! ## Drawing calls -/

theorem spliceFiles (hg : g.Covers files) (hr : r.IsProper) (paths : List String) :
    (g.spliceFiles r paths).Covers files := by
  have hdraws := Draws.spliceFiles hg.wellFormed hr paths
  exact ⟨hdraws.wellFormed, hdraws.isFresh hg.isFresh, hdraws.flagsRight hg.flagsRight,
    hdraws.unnamed_of_unnamed hg.unnamed,
    fun path content hmem => hdraws.mirrors (hg.mirrors path content hmem),
    fun path function hshows => hg.exists_content path function (hdraws.shows_iff.mp hshows)⟩

/-- A file joins a picture. The calls of the files for which others are recorded are drawn again, and
those of the rest have been drawn before. -/
theorem linksRecorded_join (hg : g.Covers files) (hnew : ∀ content, (path, content) ∉ files)
    (content : String) (hlinks : g.LinksRecorded r) {s : Resolver} (hs : s.IsProper)
    (hnone : ∀ file function function', ¬ r.Records file function path function')
    {drawn : List String}
    (hdrawn : ∀ file, file ∉ drawn → file ≠ path ∧ s.callsFrom file = r.callsFrom file) :
    ((g.mergeFile path (ofCallGraph (extract content path) path)).graph.spliceFiles s
      drawn).LinksRecorded s := by
  have hfile := hg.hasFile_eq_false hnew
  have hplain := hasPlainNames_extract content path
  have hredrawn := redrawn_mergeFile hg.wellFormed hfile hplain
  have hmerged := hg.mergeFile hnew content
  have hdraws := Draws.spliceFiles hmerged.wellFormed hs drawn
  intro file function file' function' hshows hshows' hne
  have hsplain := hdraws.wellFormed.plain_of_shows hshows
  have htplain := hdraws.wellFormed.plain_of_shows hshows'
  rw [hdraws.shows_iff] at hshows hshows'
  by_cases hmem : file ∈ drawn
  · exact hdraws.hasEdge_out hmerged.unnamed _ _ _ _ hshows hshows' hmem hne
  · obtain ⟨hpath, hsame⟩ := hdrawn file hmem
    rw [hdraws.hasEdge_of_not_out _ _ _ _ hshows hshows' fun hin => absurd hin hmem,
      hredrawn.hasEdge_iff _ _ _ _ hshows hshows' fun hboth => hpath hboth.1, records_congr hsame]
    by_cases hpath' : file' = path
    -- To the new file, no edge has been drawn before and no call is recorded.
    · subst hpath'
      exact iff_of_false
        (hg.wellFormed.not_hasEdge_of_not_hasFile hfile hsplain htplain (.inr rfl))
        (hnone file function function')
    · rw [hredrawn.shows_iff hpath] at hshows
      rw [hredrawn.shows_iff hpath'] at hshows'
      exact hlinks _ _ _ _ hshows hshows' hne

/-! ## Equal pictures -/

theorem places_subset (hg : g.Covers files) (hh : h.Covers files') (hfiles : files ⊆ files') :
    g.places ⊆ h.places := by
  rintro ⟨path, line, function⟩ hplace
  have hshows := shows_iff_mem_places.mpr ⟨line, hplace⟩
  obtain ⟨content, hmem⟩ := hg.exists_content path function hshows
  rw [(hg.mirrors path content hmem).mem_places] at hplace
  rwa [(hh.mirrors path content (hfiles hmem)).mem_places]

theorem hasEdge_of_hasEdge (hg : g.Covers files) (hh : h.Covers files') (hfiles : files ⊆ files')
    (hgr : g.LinksRecorded r) (hhr : h.LinksRecorded r) {source target : String}
    (hedge : g.hasEdge source target = true) : h.hasEdge source target = true := by
  have hshows {file function : String} (hs : g.Shows file function) : h.Shows file function := by
    obtain ⟨line, hplace⟩ := shows_iff_mem_places.mp hs
    exact shows_iff_mem_places.mpr ⟨line, hg.places_subset hh hfiles hplace⟩
  obtain ⟨hcaller, hcallee⟩ := hg.wellFormed.containsNode_of_hasEdge hedge
  obtain ⟨file, function, hs, rfl⟩ := hg.wellFormed.exists_shows_of_containsNode hcaller
  obtain ⟨file', function', ht, rfl⟩ := hg.wellFormed.exists_shows_of_containsNode hcallee
  -- Within a file the edges are told by its content, and between files by the resolver.
  by_cases hfile : file' = file
  · subst hfile
    obtain ⟨content, hmem⟩ := hg.exists_content file' function hs
    rw [(hg.mirrors _ content hmem).hasEdge_iff _ _ hs ht] at hedge
    exact ((hh.mirrors _ content (hfiles hmem)).hasEdge_iff _ _ (hshows hs) (hshows ht)).mpr hedge
  · rw [hgr _ _ _ _ hs ht hfile] at hedge
    exact (hhr _ _ _ _ (hshows hs) (hshows ht) hfile).mpr hedge

theorem freshGraph (hg : g.Covers files) : g.IsFresh :=
  ⟨hg.wellFormed.nodup_nodeIds, hg.wellFormed.id_eq, hg.isFresh, hg.flagsRight, hg.wellFormed.simple,
    hg.unnamed⟩

section Perm

variable (hg : g.Covers files) (hh : h.Covers files') (hfiles : ∀ f, f ∈ files ↔ f ∈ files')
  (hgr : g.LinksRecorded r) (hhr : h.LinksRecorded r)

include hg hh hfiles hgr hhr

theorem hasEdge_eq (source target : String) : h.hasEdge source target = g.hasEdge source target := by
  rw [Bool.eq_iff_iff]
  exact ⟨hh.hasEdge_of_hasEdge hg (fun f => (hfiles f).mpr) hhr hgr,
    hg.hasEdge_of_hasEdge hh (fun f => (hfiles f).mp) hgr hhr⟩

/-- Two pictures of the same files after the same calls have the same nodes. -/
theorem nodes_perm : g.nodes.Perm h.nodes :=
  hg.freshGraph.nodes_perm hh.freshGraph (hg.hasEdge_eq hh hfiles hgr hhr) fun _ =>
    ⟨fun hplace => hh.places_subset hg (fun f => (hfiles f).mpr) hplace,
      fun hplace => hg.places_subset hh (fun f => (hfiles f).mp) hplace⟩

theorem edges_perm : g.edges.Perm h.edges :=
  hg.freshGraph.edges_perm hh.freshGraph (hg.hasEdge_eq hh hfiles hgr hhr)

end Perm

end Covers

end Graph

end Flowgraph
