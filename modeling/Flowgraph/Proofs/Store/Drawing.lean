import Flowgraph.Proofs.Store.InStep
import Flowgraph.Syntax.Parsers

/-!
# Which recorded calls are drawn

An edit draws the calls of the file it puts into the graph, and of those for which other calls are
recorded. A recorded call has its edge exactly where this has last happened to the calling file with
the call on record and both functions in the graph, and both have stayed there since.
-/

namespace Flowgraph

namespace Store

variable {s t : Store} {path content file function file' function' : String}

/-! ## Edited stores -/

/-- A store of which no edge has been named and no node comes from a file that cannot be analyzed. -/
structure Edited (s : Store) : Prop where
  inStep : s.InStep
  unnamed : ∀ e ∈ s.graph.edges, e = .unresolved e.source e.target
  analyzable : ∀ path, s.graph.hasFile path = true → Relevance.isAnalyzable path = true

theorem edited_empty : empty.Edited where
  inStep := ⟨Graph.wellFormed_empty, Resolver.isProper_empty, fun path hfile => by cases hfile⟩
  unnamed e he := absurd he List.not_mem_nil
  analyzable path hfile := by cases hfile

/-- Whether an edit from `s` to `t` draws the calls of a file. -/
def Edit.Draws (s t : Store) (file : String) : Edit → Prop
  | update path content =>
    (s.graph.hasFile path = true ∨ Relevance.isWorkflowFile path content = true) ∧
      (file = path ∨ t.resolver.callsFrom file ≠ s.resolver.callsFrom file)
  | remove _ => t.resolver.callsFrom file ≠ s.resolver.callsFrom file

/-- `t` shows what `s` shows, but for the file `path`, which has been redrawn in `g`, and the calls of
`files`, which have been drawn after that. -/
structure Redraws (s t : Store) (path : String) (calls : CallGraph) (g : Graph) (files : List String) :
    Prop where
  redrawn : s.graph.Redrawn path calls g
  unnamed : ∀ e ∈ g.edges, e = .unresolved e.source e.target
  analyzable : g.hasFile path = true → Relevance.isAnalyzable path = true
  proper : t.resolver.IsProper
  places_eq : t.graph.places = (g.spliceFiles t.resolver files).places
  edges_eq : t.graph.edges = (g.spliceFiles t.resolver files).edges

section Redraws

variable {calls : CallGraph} {g : Graph} {files : List String}

theorem Redraws.draws (h : s.Redraws t path calls g files) :
    g.Draws t.resolver files (g.spliceFiles t.resolver files) :=
  Graph.Draws.spliceFiles h.redrawn.wellFormed h.proper files

theorem Redraws.shows_iff (h : s.Redraws t path calls g files) :
    t.graph.Shows file function ↔ g.Shows file function := by
  rw [Graph.shows_iff_mem_places, h.places_eq, ← Graph.shows_iff_mem_places, h.draws.shows_iff]

end Redraws

theorem redraws_committed [Parsers] {g : Graph} (hs : s.InStep)
    (hanalyzable : Relevance.isAnalyzable path = true)
    (hg : s.graph.Redrawn path (extract content path) g)
    (hunnamed : ∀ e ∈ g.edges, e = .unresolved e.source e.target) (entry : IndexEntry) :
    s.Redraws (s.committed path content entry g) path (extract content path) g
      ((s.resolver.updateEntry path entry).affected.insert path).toList where
  redrawn := hg
  unnamed := hunnamed
  analyzable _ := hanalyzable
  proper := Resolver.isProper_updateEntry hs.proper path entry
  places_eq := rfl
  edges_eq := rfl

theorem Edited.redraws_removeFile (hs : s.Edited) (path : String) :
    s.Redraws (s.removeFile path).store path .empty (s.graph.removeFile path)
      (s.resolver.removeFile path).affected.toList := by
  have hproper := Resolver.isProper_removeFile hs.inStep.proper path
  have hredrawn := hs.inStep.wellFormed.redrawn_removeFile path
  have hunnamed : ∀ e ∈ (s.graph.removeFile path).edges, e = .unresolved e.source e.target := by
    rw [Graph.removeFile, Graph.foldl_removeNode]
    exact fun e he => hs.unnamed e (List.mem_of_mem_filter he)
  have hanalyzable : (s.graph.removeFile path).hasFile path = true →
      Relevance.isAnalyzable path = true := by
    rw [Graph.hasFile_iff]
    rintro ⟨function, hshows⟩
    exact absurd rfl ((Graph.shows_removeFile hs.inStep.wellFormed).mp hshows).2
  have hids := (Graph.Draws.spliceFiles hredrawn.wellFormed hproper
    (s.resolver.removeFile path).affected.toList).wellFormed.nodup_nodeIds
  obtain ⟨g, hstore, rfl | rfl⟩ := store_removeFile s path
  · exact ⟨hredrawn, hunnamed, hanalyzable, hstore ▸ hproper,
      by rw [hstore]; rfl, by rw [hstore]; rfl⟩
  · exact ⟨hredrawn, hunnamed, hanalyzable, hstore ▸ hproper,
      by rw [hstore]; exact Graph.places_refreshEndpoints hids,
      by rw [hstore]; exact Graph.edges_refreshEndpoints hids⟩

section Parsers

variable [Parsers]

/-- An update of a file that is not shown and no workflow leaves the graph alone. Any other one
redraws the file. -/
theorem Edited.of_update (hs : s.Edited) (h : (Edit.update path content).apply s = .ok t) :
    (t.graph = s.graph ∧
        ¬ (s.graph.hasFile path = true ∨ Relevance.isWorkflowFile path content = true)) ∨
      ((s.graph.hasFile path = true ∨ Relevance.isWorkflowFile path content = true) ∧
        ∃ entry g, t = s.committed path content entry g ∧
          s.Redraws t path (extract content path) g
            ((s.resolver.updateEntry path entry).affected.insert path).toList) := by
  have hplain := hasPlainNames_extract content path
  have hanalyzable
      (hshown : s.graph.hasFile path = true ∨ Relevance.isWorkflowFile path content = true) :
      Relevance.isAnalyzable path = true :=
    hshown.elim (hs.analyzable path) fun hworkflow => (Bool.and_eq_true_iff.mp hworkflow).1
  cases updates_of_apply h with
  | unsupported hlanguage =>
    refine .inl ⟨rfl, fun hshown => ?_⟩
    rw [Relevance.isSupported_of_isAnalyzable (hanalyzable hshown)] at hlanguage
    cases hlanguage
  | refused hfile hdiff =>
    -- The nodes of a file come with a baseline, and a difference from it applies.
    obtain ⟨old, hold, hm⟩ := hs.inStep.mirrors path hfile
    obtain ⟨u, hu, -⟩ := hs.inStep.wellFormed.exists_redrawn_applyDiff hm hplain
    exact absurd hu (hdiff old hold u)
  | remembered entry hlanguage hfile hworkflow =>
    refine .inl ⟨rfl, ?_⟩
    rw [hfile, hworkflow]
    simp
  | patched entry old u hlanguage hfile hold hdiff =>
    obtain ⟨old', hold', hm⟩ := hs.inStep.mirrors path hfile
    obtain rfl : old = old' := Option.some.inj (hold.symm.trans hold')
    obtain ⟨u', hdiff', hredrawn, hunnamed⟩ := hs.inStep.wellFormed.exists_redrawn_applyDiff hm hplain
    obtain rfl : u = u' := Except.ok.inj (hdiff.symm.trans hdiff')
    have hcommitted := redraws_committed hs.inStep (hanalyzable (.inl hfile)) hredrawn
      (fun e he => (hunnamed e he).elim (hs.unnamed e) id) entry
    exact .inr ⟨.inl hfile, entry, u.graph, rfl, hcommitted⟩
  | joined entry hlanguage hfile hworkflow =>
    have hadds := Graph.addsEdges_mergeFile hs.inStep.wellFormed hfile hplain
    have hredrawn := Graph.redrawn_mergeFile hs.inStep.wellFormed hfile hplain
    have hcommitted := redraws_committed hs.inStep (hanalyzable (.inr hworkflow)) hredrawn
      (hadds.unnamed_of_unnamed hs.unnamed) entry
    exact .inr ⟨.inr hworkflow, entry, _, rfl, hcommitted⟩

/-- An edit draws nothing and leaves the graph alone, or draws the calls of a file that it redraws. -/
theorem Edited.redraws {e : Edit} (hs : s.Edited) (h : e.apply s = .ok t) :
    (t.graph = s.graph ∧ ∀ file, ¬ e.Draws s t file) ∨
      ∃ path calls g files, s.Redraws t path calls g files ∧
        ∀ file function, t.graph.Shows file function → (file ∈ files ↔ e.Draws s t file) := by
  cases e with
  | update path content =>
    rcases hs.of_update h with ⟨hsame, hnot⟩ | ⟨hshown, entry, g, rfl, hredraws⟩
    · exact .inl ⟨hsame, fun file hdraws => hnot hdraws.1⟩
    · refine .inr ⟨path, _, g, _, hredraws, fun file function _ => ?_⟩
      rw [Std.ExtTreeSet.mem_toList, Std.ExtTreeSet.mem_insert, Std.LawfulEqCmp.compare_eq_iff_eq,
        Resolver.mem_affected_updateEntry, eq_comm]
      exact (and_iff_right hshown).symm
  | remove path =>
    cases h
    have hredraws := hs.redraws_removeFile path
    refine .inr ⟨path, _, _, _, hredraws, fun file function hshows => ?_⟩
    rw [hredraws.shows_iff, Graph.shows_removeFile hs.inStep.wellFormed] at hshows
    -- The removed file itself is shown no longer, and no other one is left out.
    rw [Std.ExtTreeSet.mem_toList, Resolver.mem_affected_removeFile, Edit.Draws, resolver_removeFile]
    exact and_iff_right hshows.2

theorem Edited.apply {e : Edit} (hs : s.Edited) (h : e.apply s = .ok t) : t.Edited := by
  rcases hs.redraws h with ⟨hsame, -⟩ | ⟨path, calls, g, files, hredraws, -⟩
  · exact ⟨hs.inStep.edit h, hsame ▸ hs.unnamed, hsame ▸ hs.analyzable⟩
  · refine ⟨hs.inStep.edit h, ?_, fun file hfile => ?_⟩
    · rw [hredraws.edges_eq]
      exact hredraws.draws.unnamed_of_unnamed hredraws.unnamed
    · obtain ⟨function, hshows⟩ := Graph.hasFile_iff.mp hfile
      rw [hredraws.shows_iff] at hshows
      by_cases hpath : file = path
      · subst hpath
        exact hredraws.analyzable (Graph.hasFile_iff.mpr ⟨function, hshows⟩)
      · rw [hredraws.redrawn.shows_iff hpath] at hshows
        exact hs.analyzable file (Graph.hasFile_iff.mpr ⟨function, hshows⟩)

/-! ## Edges between files -/

section Edges

variable (hplain : IsPlainName function) (hplain' : IsPlainName function') (hne : file' ≠ file)

include hplain hplain' hne

/-- After an edit, an edge between two files is one that has been drawn for a recorded call, or one
that has stayed with its nodes. -/
theorem Edited.hasEdge_iff {e : Edit} (hs : s.Edited) (h : e.apply s = .ok t) :
    t.graph.hasEdge (Graph.nodeId file function) (Graph.nodeId file' function') = true ↔
      t.graph.Shows file function ∧ t.graph.Shows file' function' ∧
        (e.Draws s t file ∧ t.resolver.Records file function file' function' ∨
          ¬ e.Draws s t file ∧
            s.graph.hasEdge (Graph.nodeId file function) (Graph.nodeId file' function') = true) := by
  have hwf := (hs.apply h).inStep.wellFormed
  -- An edge has nodes at both ends, so that what is not shown has none on either side.
  suffices hshown : t.graph.Shows file function → t.graph.Shows file' function' →
      (t.graph.hasEdge (Graph.nodeId file function) (Graph.nodeId file' function') = true ↔
        (e.Draws s t file ∧ t.resolver.Records file function file' function' ∨
          ¬ e.Draws s t file ∧
            s.graph.hasEdge (Graph.nodeId file function) (Graph.nodeId file' function') = true)) by
    constructor
    · intro hedge
      obtain ⟨hcaller, hcallee⟩ := hwf.shows_of_hasEdge hplain hplain' hedge
      exact ⟨hcaller, hcallee, (hshown hcaller hcallee).mp hedge⟩
    · rintro ⟨hcaller, hcallee, hfrom⟩
      exact (hshown hcaller hcallee).mpr hfrom
  intro hcaller hcallee
  rcases hs.redraws h with ⟨hsame, hnot⟩ | ⟨path, calls, g, files, hredraws, hfiles⟩
  · simp only [hsame, hnot, false_and, false_or, not_false_eq_true, true_and]
  · have hdrawn := hfiles file function hcaller
    rw [hredraws.shows_iff] at hcaller hcallee
    rw [Graph.hasEdge_congr hredraws.edges_eq]
    -- The edges out of a file that is drawn are the recorded ones, and all others stay.
    by_cases hmem : file ∈ files
    · rw [hredraws.draws.hasEdge_out hredraws.unnamed _ _ _ _ hcaller hcallee hmem hne]
      simp [hdrawn.mp hmem]
    · have hapart : ¬ (file = path ∧ file' = path) := fun hboth =>
        hne (hboth.2.trans hboth.1.symm)
      rw [hredraws.draws.hasEdge_of_not_out _ _ _ _ hcaller hcallee fun h => absurd h hmem,
        hredraws.redrawn.hasEdge_iff _ _ _ _ hcaller hcallee hapart]
      simp [mt hdrawn.mpr hmem]

end Edges

/-! ## The last drawing -/

/-- Along the edits from `s` on, the calls of a file are not drawn, and a function of it and one of
another file keep their nodes. -/
def Stays (file function file' function' : String) (s : Store) : List Edit → Prop
  | [] => True
  | e :: edits => ∃ t, e.apply s = .ok t ∧ ¬ e.Draws s t file ∧ t.graph.Shows file function ∧
      t.graph.Shows file' function' ∧ Stays file function file' function' t edits

/-- Along the edits from `s` on, the calls of a file are drawn for the last time with one from a
function of it to one of another file on record, and both functions have nodes from then on. -/
def DrawnLast (file function file' function' : String) (s : Store) : List Edit → Prop
  | [] => False
  | e :: edits => ∃ t, e.apply s = .ok t ∧
      (e.Draws s t file ∧ t.resolver.Records file function file' function' ∧
          t.graph.Shows file function ∧ t.graph.Shows file' function' ∧
          Stays file function file' function' t edits ∨
        DrawnLast file function file' function' t edits)

theorem Edited.hasEdge_iff_stays_or_drawnLast {edits : List Edit} (hplain : IsPlainName function)
    (hplain' : IsPlainName function') (hne : file' ≠ file) (hs : s.Edited)
    (h : edits.foldlM Edit.apply s = .ok t) :
    t.graph.hasEdge (Graph.nodeId file function) (Graph.nodeId file' function') = true ↔
      (s.graph.hasEdge (Graph.nodeId file function) (Graph.nodeId file' function') = true ∧
          Stays file function file' function' s edits) ∨
        DrawnLast file function file' function' s edits := by
  -- The induction is on the edits from any edited store, of which an edge may already have been drawn.
  induction edits generalizing s with
  | nil =>
    cases h
    simp [Stays, DrawnLast]
  | cons e edits ih =>
    obtain ⟨u, hu, hrest⟩ := Outcome.foldlM_cons_eq_ok.mp h
    rw [ih (hs.apply hu) hrest, hs.hasEdge_iff hplain hplain' hne hu, Stays, DrawnLast]
    simp only [hu, Except.ok.injEq, exists_eq_left']
    grind

/-- A recorded call between two functions that have nodes has an edge exactly where the calling file
has last been drawn with the call on record and both nodes there, and they have stayed since. -/
theorem hasEdge_iff_drawnLast {edits : List Edit} {c : CrossFileCall} {source target : String}
    (h : edits.foldlM Edit.apply empty = .ok t) (hc : c ∈ t.resolver.calls)
    (hsource : t.graph.functionNodeId? c.caller.file c.caller.function = some source)
    (htarget : t.graph.functionNodeId? c.callee.file c.callee.function = some target) :
    t.graph.hasEdge source target = true ↔
      DrawnLast c.caller.file c.caller.function c.callee.file c.callee.function empty edits := by
  have ht : t.Edited :=
    Outcome.foldlM_preserves (fun _ _ _ happly hs => hs.apply happly) edited_empty h
  have hwf := ht.inStep.wellFormed
  obtain ⟨hcaller, rfl⟩ := hwf.functionNodeId?_eq_some.mp hsource
  obtain ⟨hcallee, rfl⟩ := hwf.functionNodeId?_eq_some.mp htarget
  rw [edited_empty.hasEdge_iff_stays_or_drawnLast (hwf.plain_of_shows hcaller)
    (hwf.plain_of_shows hcallee) (ht.inStep.proper c hc) h]
  refine or_iff_right fun hfirst => ?_
  cases hfirst.1

end Parsers

set_option maxRecDepth 100000 in
/-- The callee is there before its caller comes, and the edge is drawn. -/
theorem hasEdge_iff_drawnLast_of_callee_first :
    ∃ t, [Edit.update "l.js" "'@mastra/'\nfunction g(){}",
        .update "a.js" "'@mastra/'\nimport * as l from './l'\nfunction r(){l.g()}"].foldlM
          Edit.apply empty = .ok t ∧
      (⟨⟨"a.js", "r", 3⟩, ⟨"l.js", "g", "l"⟩⟩ : CrossFileCall) ∈ t.resolver.calls ∧
      t.graph.functionNodeId? "a.js" "r" = some "a.js::r" ∧
      t.graph.functionNodeId? "l.js" "g" = some "l.js::g" ∧
      t.graph.hasEdge "a.js::r" "l.js::g" = true ∧
      (t.graph.hasEdge "a.js::r" "l.js::g" = true ↔ DrawnLast "a.js" "r" "l.js" "g" empty
        [.update "l.js" "'@mastra/'\nfunction g(){}",
          .update "a.js" "'@mastra/'\nimport * as l from './l'\nfunction r(){l.g()}"]) := by
  have hrun : ([Edit.update "l.js" "'@mastra/'\nfunction g(){}",
      .update "a.js" "'@mastra/'\nimport * as l from './l'\nfunction r(){l.g()}"].foldlM
        Edit.apply empty).toOption.map (fun t =>
          (t.resolver.calls.contains ⟨⟨"a.js", "r", 3⟩, ⟨"l.js", "g", "l"⟩⟩,
            t.graph.functionNodeId? "a.js" "r", t.graph.functionNodeId? "l.js" "g",
            t.graph.hasEdge "a.js::r" "l.js::g")) =
      some (true, some "a.js::r", some "l.js::g", true) := by
    decide +kernel
  obtain ⟨t, ht, hresult⟩ := Outcome.exists_of_map_toOption hrun
  obtain ⟨hc, hresult⟩ := Prod.mk.inj hresult
  obtain ⟨hsource, hresult⟩ := Prod.mk.inj hresult
  obtain ⟨htarget, hedge⟩ := Prod.mk.inj hresult
  exact ⟨t, ht, hc, hsource, htarget, hedge, hasEdge_iff_drawnLast ht hc hsource htarget⟩

set_option maxRecDepth 100000 in
/-- The callee comes after its caller, to a file whose functions may all be called. The call is on
record before, so that the caller is not drawn again. -/
theorem exists_call_without_edge :
    ∃ t, [Edit.update "l.js" "'@mastra/'\nfunction f(){}",
        .update "a.js" "'@mastra/'\nimport * as l from './l'\nfunction r(){l.g()}",
        .update "l.js" "'@mastra/'\nfunction g(){}"].foldlM Edit.apply empty = .ok t ∧
      (⟨⟨"a.js", "r", 3⟩, ⟨"l.js", "g", "l"⟩⟩ : CrossFileCall) ∈ t.resolver.calls ∧
      t.graph.functionNodeId? "a.js" "r" = some "a.js::r" ∧
      t.graph.functionNodeId? "l.js" "g" = some "l.js::g" ∧
      t.graph.hasEdge "a.js::r" "l.js::g" = false := by
  have hrun : ([Edit.update "l.js" "'@mastra/'\nfunction f(){}",
      .update "a.js" "'@mastra/'\nimport * as l from './l'\nfunction r(){l.g()}",
      .update "l.js" "'@mastra/'\nfunction g(){}"].foldlM Edit.apply empty).toOption.map (fun t =>
        (t.resolver.calls.contains ⟨⟨"a.js", "r", 3⟩, ⟨"l.js", "g", "l"⟩⟩,
          t.graph.functionNodeId? "a.js" "r", t.graph.functionNodeId? "l.js" "g",
          t.graph.hasEdge "a.js::r" "l.js::g")) =
      some (true, some "a.js::r", some "l.js::g", false) := by
    decide +kernel
  obtain ⟨t, ht, hresult⟩ := Outcome.exists_of_map_toOption hrun
  obtain ⟨hc, hresult⟩ := Prod.mk.inj hresult
  obtain ⟨hsource, hresult⟩ := Prod.mk.inj hresult
  obtain ⟨htarget, hedge⟩ := Prod.mk.inj hresult
  exact ⟨t, ht, hc, hsource, htarget, hedge⟩

end Store

end Flowgraph
