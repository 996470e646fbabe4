import Flowgraph.Proofs.Engine.Run
import Flowgraph.Proofs.Graph.Files
import Flowgraph.Proofs.Store.Contents
import Flowgraph.Syntax.Parsers

/-!
# Files that an analysis leaves out

A workflow file with functions is in the graph unless an analysis has come back without it. It is then
missing until the engine reads it again, or an analysis comes back with it.
-/

namespace Flowgraph

namespace Store

variable {s t u : Store} {path file content : String} {g : Graph} {contents : Contents}

/-! ## Consistent stores -/

variable [Parsers]

/-- The graph and what the store keeps of its files follow from their contents. -/
structure Consistent (s : Store) : Prop where
  inStep : s.InStep
  coherent : s.Coherent

theorem consistent_empty : empty.Consistent where
  inStep := ⟨Graph.wellFormed_empty, Resolver.isProper_empty, fun path hfile => by cases hfile⟩
  coherent := coherent_empty

/-- An empty or seeded store has no nodes. -/
theorem consistent_of_seeded (hs : s = .empty ∨ ∃ files, empty.seed files = .ok s) :
    s.Consistent ∧ s.graph = .empty := by
  rcases hs with rfl | ⟨files, hseed⟩
  · exact ⟨consistent_empty, rfl⟩
  · obtain ⟨t, ht, rfl⟩ := Outcome.map_eq_ok.mp hseed
    exact ⟨⟨inStep_seed hseed, coherent_empty.seed hseed⟩, (tracks_foldlM_trackFile ht).graph_eq⟩

namespace Consistent

theorem edit (hs : s.Consistent) {e : Edit} (h : e.apply s = .ok t) : t.Consistent :=
  ⟨hs.inStep.edit h, hs.coherent.edit h⟩

theorem removeFile (hs : s.Consistent) (path : String) : (s.removeFile path).store.Consistent :=
  ⟨hs.inStep.removeFile path, hs.coherent.removeFile path⟩

theorem classify (hs : s.Consistent) (entries : List Classification) :
    (s.classify entries).1.Consistent :=
  ⟨hs.inStep.classify entries, hs.coherent.withGraph _⟩

theorem installAnalysis (hs : s.Consistent) {result : Store × List String}
    (hg : localAnalysis contents = .ok g) (h : s.installAnalysis g contents = .ok result) :
    result.1.Consistent :=
  ⟨hs.inStep.installAnalysis hg h, hs.coherent.installAnalysis h⟩

end Consistent

/-! ## Present files -/

/-- The graph has nodes of a file if its content is a workflow with functions. -/
def Presents (s : Store) (file : String) : Prop :=
  ∀ content, s.contents[file]? = some content → Relevance.isWorkflowFile file content = true →
    (extract content file).toList ≠ [] → s.graph.hasFile file = true

/-- `t` presents a file if `s` does, and has no nodes of it if `s` has none. -/
structure Keeps (s t : Store) (file : String) : Prop where
  presents : s.Presents file → t.Presents file
  hasFile_eq_false : s.graph.hasFile file = false → t.graph.hasFile file = false

theorem Keeps.refl (s : Store) : s.Keeps s file := ⟨id, id⟩

theorem Keeps.trans (hst : s.Keeps t file) (htu : t.Keeps u file) : s.Keeps u file :=
  ⟨htu.presents ∘ hst.presents, htu.hasFile_eq_false ∘ hst.hasFile_eq_false⟩

theorem keeps_of_eq (hcontent : t.contents[file]? = s.contents[file]?)
    (hfile : t.graph.hasFile file = s.graph.hasFile file) : s.Keeps t file where
  presents hs content hkept := by
    rw [hfile]
    exact hs content (hcontent ▸ hkept)
  hasFile_eq_false := hfile.trans

/-! ## Updates -/

/-- A file that is redrawn is present, and the others are kept. -/
theorem Consistent.presents_committed (hs : s.Consistent) {entry : IndexEntry}
    (hredrawn : s.graph.Redrawn path (extract content path) g) :
    (s.committed path content entry g).Presents path ∧
      ∀ file, file ≠ path → s.Keeps (s.committed path content entry g) file := by
  have hdraws := Graph.Draws.spliceFiles hredrawn.wellFormed
    (Resolver.isProper_updateEntry hs.inStep.proper path entry)
    ((s.resolver.updateEntry path entry).affected.insert path).toList
  have hcontents (file : String) : (s.committed path content entry g).contents[file]? =
      if path = file then some content else s.contents[file]? := by
    rw [committed, getElem?_contents_withFile]
  refine ⟨fun content' hcontent _ hfunctions => ?_, fun file hne => keeps_of_eq ?_ ?_⟩
  · rw [hcontents, if_pos rfl] at hcontent
    cases hcontent
    exact (hdraws.mirrors hredrawn.mirrors).hasFile hfunctions
  · rw [hcontents, if_neg hne.symm]
  · exact (hasFile_congr hdraws.places_eq).trans (hredrawn.hasFile_eq hne)

/-- An update presents the file, and keeps the others. -/
theorem Consistent.presents_update (hs : s.Consistent)
    (h : (Edit.update path content).apply s = .ok t) :
    t.Presents path ∧ ∀ file, file ≠ path → s.Keeps t file := by
  rcases hs.inStep.updates_cases (updates_of_apply h) with
    ⟨hlanguage, rfl⟩ | ⟨-, hworkflow, entry, -, rfl⟩ | ⟨entry, g, -, hredrawn, rfl⟩
  · refine ⟨fun content' _ hworkflow => ?_, fun _ _ => .refl _⟩
    rw [Relevance.isSupported_of_isAnalyzable (Bool.and_eq_true_iff.mp hworkflow).1] at hlanguage
    cases hlanguage
  · refine ⟨fun content' hcontent hworkflow' => ?_, fun file hne => keeps_of_eq ?_ rfl⟩
    · rw [getElem?_contents_withFile, if_pos rfl] at hcontent
      cases hcontent
      exact absurd hworkflow' (Bool.eq_false_iff.mp hworkflow)
    · rw [getElem?_contents_withFile, if_neg hne.symm]
  · exact hs.presents_committed hredrawn

/-! ## Other changes -/

theorem keeps_classify (s : Store) (entries : List Classification) :
    s.Keeps (s.classify entries).1 file :=
  keeps_of_eq rfl
    (hasFile_congr (Graph.map_nodes_classify Node.source (fun _ _ => rfl) s.graph entries))

/-- A removed file has neither nodes nor content. -/
theorem Consistent.keeps_removeFile (hs : s.Consistent) (path : String) :
    s.Keeps (s.removeFile path).store file := by
  have hredrawn := hs.inStep.wellFormed.redrawn_removeFile path
  have hdraws := Graph.Draws.spliceFiles hredrawn.wellFormed
    (Resolver.isProper_removeFile hs.inStep.proper path) (s.resolver.removeFile path).affected.toList
  obtain ⟨g, hstore, hg⟩ := store_removeFile s path
  have hplaces : g.places = (s.graph.removeFile path).places := by
    rcases hg with rfl | rfl
    · exact hdraws.places_eq
    · exact (Graph.places_refreshEndpoints hdraws.wellFormed.nodup_nodeIds).trans hdraws.places_eq
  have hfile : (s.removeFile path).store.graph.hasFile file = (s.graph.removeFile path).hasFile file := by
    rw [hstore]
    exact hasFile_congr hplaces
  by_cases hne : file = path
  · subst hne
    refine ⟨fun _ content hcontent => ?_, fun _ => ?_⟩
    · simp [hstore] at hcontent
    · rw [hfile]
      exact Graph.lacks_iff.mp (s.graph.lacks_removeFile file)
  · refine keeps_of_eq ?_ (hfile.trans (hredrawn.hasFile_eq hne))
    simp [hstore, Std.ExtTreeMap.getElem?_erase, Ne.symm hne]

/-- An analysis that is put in place presents the analyzed files, and has no nodes of the others. -/
theorem Consistent.presents_installAnalysis (hs : s.Consistent) {result : Store × List String}
    (hg : localAnalysis contents = .ok g) (h : s.installAnalysis g contents = .ok result) :
    (file ∈ contents → result.1.Presents file) ∧
      (file ∉ contents → result.1.graph.hasFile file = false) := by
  obtain ⟨u, hu, rfl⟩ := Outcome.map_eq_ok.mp h
  obtain ⟨r, -, hcovers, -⟩ := exists_covers_localAnalysis hg
  refine ⟨fun hfile content' hcontent' _ hfunctions => ?_, fun hfile => ?_⟩
  · obtain ⟨content, hcontent⟩ := Option.isSome_iff_exists.mp
      (Std.ExtTreeMap.mem_iff_isSome_getElem?.mp hfile)
    have hmem : (file, content) ∈ contents.toList :=
      Std.ExtTreeMap.mem_toList_iff_getElem?_eq_some.mpr hcontent
    have htracked := (tracks_foldlM_trackFile hu).callGraphs_of_mem (nodup_map_fst_toList contents)
      file content hmem
    -- The call graph that is kept of the file is that of both its contents.
    change u.contents[file]? = some content' at hcontent'
    rw [(hs.coherent.foldlM_trackFile hu).callGraphs_eq, hcontent', Option.map_some,
      Option.some.injEq] at htracked
    exact (hcovers.mirrors file content hmem).hasFile (htracked ▸ hfunctions)
  · refine hcovers.hasFile_eq_false fun content hmem => hfile ?_
    exact OrderedMap.mem_of_getElem? (Std.ExtTreeMap.mem_toList_iff_getElem?_eq_some.mp hmem)

/-! ## Renewed and left out -/

/-- How a file fares from `s` to `t`. It is present if it has been renewed, gone if it has been left
out, and otherwise kept. -/
structure Fares (s t : Store) (file : String) (renewed leftOut : Prop) : Prop where
  consistent : t.Consistent
  presents : renewed → t.Presents file
  hasFile_eq_false : leftOut → t.graph.hasFile file = false
  keeps : ¬ renewed → ¬ leftOut → s.Keeps t file

theorem fares_of_keeps {renewed leftOut : Prop} (ht : t.Consistent) (hkeeps : s.Keeps t file)
    (hrenewed : ¬ renewed) (hleft : ¬ leftOut) : s.Fares t file renewed leftOut :=
  ⟨ht, fun h => absurd h hrenewed, fun h => absurd h hleft, fun _ _ => hkeeps⟩

theorem Fares.trans {renewed renewed' leftOut : Prop} (hst : s.Fares t file renewed leftOut)
    (htu : t.Fares u file renewed' False) (hleft : leftOut → ¬ renewed') :
    s.Fares u file (renewed ∨ renewed') leftOut where
  consistent := htu.consistent
  presents hrenewed := by
    by_cases hagain : renewed'
    · exact htu.presents hagain
    · exact (htu.keeps hagain not_false).presents (hst.presents (hrenewed.resolve_right hagain))
  hasFile_eq_false h := (htu.keeps (hleft h) not_false).hasFile_eq_false (hst.hasFile_eq_false h)
  keeps hrenewed h := by
    obtain ⟨hfirst, hagain⟩ := not_or.mp hrenewed
    exact (hst.keeps hfirst h).trans (htu.keeps hagain not_false)

theorem Consistent.fares_update (hs : s.Consistent)
    (h : (Edit.update path content).apply s = .ok t) (file : String) :
    s.Fares t file (file = path) False where
  consistent := hs.edit h
  presents heq := heq ▸ (hs.presents_update h).1
  hasFile_eq_false := False.elim
  keeps hne _ := (hs.presents_update h).2 file hne

theorem Consistent.fares_installAnalysis (hs : s.Consistent) {result : Store × List String}
    (hg : localAnalysis contents = .ok g) (h : s.installAnalysis g contents = .ok result)
    (file : String) : s.Fares result.1 file (file ∈ contents) (file ∉ contents) where
  consistent := hs.installAnalysis hg h
  presents := (hs.presents_installAnalysis hg h).1
  hasFile_eq_false := (hs.presents_installAnalysis hg h).2
  keeps hnot hnot' := absurd hnot hnot'

end Store

/-! ## Messages -/

/-- Whether a message is the graph of an analysis that does not contain a file. -/
def Message.LeavesOut (file : String) (message : Message) : Prop :=
  ∃ reason files result, message = .analyzed reason files (.ok result) ∧ file ∉ files

namespace Engine

variable {e : Engine} {read : String → Option String} {now : Nat} {message : Message} {s t : Store}
  {d : Deadlines} {paths : List String} {path file : String}

variable [Parsers]

theorem fares_foldlM_reread (hs : s.Consistent) (h : paths.foldlM (reread read) s = .ok t)
    (file : String) : s.Fares t file (file ∈ paths ∧ (read file).isSome = true) False := by
  induction paths generalizing s with
  | nil =>
    cases h
    exact Store.fares_of_keeps hs (.refl _) (fun hread => absurd hread.1 List.not_mem_nil) not_false
  | cons path paths ih =>
    obtain ⟨u, hfirst, hrest⟩ := Outcome.foldlM_cons_eq_ok.mp h
    have hread : s.Fares u file (file = path ∧ (read file).isSome = true) False := by
      rw [reread] at hfirst
      split at hfirst
      next hnone =>
        cases hfirst
        refine Store.fares_of_keeps hs (.refl _) ?_ not_false
        rintro ⟨rfl, hsome⟩
        simp [hnone] at hsome
      next content hsome =>
        have hupdate := hs.fares_update hfirst file
        have hfile : (file = path ∧ (read file).isSome = true) ↔ file = path :=
          and_iff_left_of_imp fun heq => by rw [heq, hsome]; rfl
        rwa [hfile]
    have hboth := hread.trans (ih hread.consistent hrest) not_false.elim
    rwa [← or_and_right, ← List.mem_cons] at hboth

theorem Heard.fares (h : e.Heard now message s d paths) (he : e.store.Consistent)
    (hgraph : ∀ reason files result, message = .analyzed reason files (.ok result) →
      localAnalysis files = .ok result.graph) (file : String) :
    e.store.Fares s file (message.Restores file) (message.LeavesOut file) := by
  have hother {store : Store} (hstore : store.Consistent) (hkeeps : e.store.Keeps store file)
      (hnot : ∀ reason files result, message ≠ .analyzed reason files (.ok result)) :
      e.store.Fares store file (message.Restores file) (message.LeavesOut file) := by
    refine Store.fares_of_keeps hstore hkeeps ?_ ?_
    · rintro ⟨reason, files, result, heq, -⟩
      exact hnot reason files result heq
    · rintro ⟨reason, files, result, heq, -⟩
      exact hnot reason files result heq
  cases h with
  | deleted path => exact hother (he.removeFile path) (he.keeps_removeFile path) nofun
  | classified entries => exact hother (he.classify entries) (Store.keeps_classify _ entries) nofun
  | changed | analyze | deadline | unclassified | unanalyzed => exact hother he (.refl _) nofun
  | analyzed reason files result store stale hinstall =>
    have hinstalled := he.fares_installAnalysis (hgraph reason files result rfl) hinstall file
    have hrestores : (Message.analyzed reason files (.ok result)).Restores file ↔ file ∈ files := by
      simp [Message.Restores]
    have hleaves : (Message.analyzed reason files (.ok result)).LeavesOut file ↔ file ∉ files := by
      simp [Message.LeavesOut]
    rwa [hrestores, hleaves]

/-- No file is read after an analysis has come back. -/
theorem Heard.paths_eq_nil (h : e.Heard now message s d paths) (hleft : message.LeavesOut file) :
    paths = [] := by
  cases h with
  | deadline =>
    obtain ⟨_, _, _, heq, -⟩ := hleft
    cases heq
  | _ => rfl

end Engine

/-! ## Runs -/

/-- Whether a file comes back to the graph in a round: it is read, or an analysis comes back with it. -/
def Round.Renews (file : String) (r : Round) : Prop :=
  r.message.Restores file ∨ file ∈ r.turn.reads ∧ (r.read file).isSome = true

namespace Loop

variable {l m : Loop} {r : Round} {rounds : List Round} {file path content : String} {timing : Timing}

/-- Whether an analysis has come back without a file, and the file has not come back since. -/
def Lost (file : String) (rounds : List Round) : Prop :=
  Since (fun r : Round => r.message.LeavesOut file) (fun r => r.Renews file) rounds

theorem Takes.fares [Parsers] (h : l.Takes textualGraphs r m) (hl : l.engine.store.Consistent)
    (file : String) :
    l.engine.store.Fares m.engine.store file (r.Renews file) (r.message.LeavesOut file) := by
  obtain ⟨s, d, paths, hheard, hsettles⟩ := h.exists_heard
  have hmessage := hheard.fares hl (fun reason files result heq =>
    textualGraphs_iff.mp (h.mem_jobs_of_analyzed heq).2) file
  have hread := Engine.fares_foldlM_reread hmessage.consistent hsettles.store_eq file
  rw [h.engine_eq, Round.Renews, hsettles.reads_eq]
  refine hmessage.trans hread fun hleft hread => ?_
  rw [hheard.paths_eq_nil hleft] at hread
  exact List.not_mem_nil hread.1

/-- After any run on an empty store, a workflow file with functions has nodes unless an analysis has
come back without it and it has not come back since. -/
theorem hasFile_iff_not_lost [Parsers] (h : Run textualGraphs ⟨.start timing .empty, []⟩ rounds l)
    (hcontent : l.engine.store.contents[path]? = some content)
    (hworkflow : Relevance.isWorkflowFile path content = true)
    (hfunctions : (extract content path).toList ≠ []) :
    l.engine.store.graph.hasFile path = true ↔ ¬ Lost path rounds := by
  suffices hall : l.engine.store.Consistent ∧
      (Lost path rounds → l.engine.store.graph.hasFile path = false) ∧
      (¬ Lost path rounds → l.engine.store.Presents path) by
    obtain ⟨-, hlost, hpresents⟩ := hall
    refine ⟨fun hfile hnot => ?_, fun hnot => hpresents hnot content hcontent hworkflow hfunctions⟩
    exact Bool.false_ne_true ((hlost hnot).symm.trans hfile)
  clear hcontent hworkflow hfunctions
  induction h with
  | refl =>
    exact ⟨Store.consistent_empty, fun hlost => absurd hlost not_since_nil,
      fun _ content hcontent => by simp [Engine.start, Store.empty] at hcontent⟩
  | @snoc rounds l m r hrun hround ih =>
    obtain ⟨hl, hlost, hpresents⟩ := ih
    have hfares := hround.fares hl path
    rw [Lost, since_append_singleton]
    refine ⟨hfares.consistent, fun hnow => ?_, fun hnot => ?_⟩
    · by_cases hleft : r.message.LeavesOut path
      · exact hfares.hasFile_eq_false hleft
      · obtain ⟨hbefore, hnot⟩ := hnow.resolve_left hleft
        exact (hfares.keeps hnot hleft).hasFile_eq_false (hlost hbefore)
    · obtain ⟨hleft, hkept⟩ := not_or.mp hnot
      by_cases hrenews : r.Renews path
      · exact hfares.presents hrenews
      · exact (hfares.keeps hrenews hleft).presents (hpresents fun hbefore => hkept ⟨hbefore, hrenews⟩)

set_option maxRecDepth 100000 in
/-- An analysis comes back without a file, which is then edited and read again. -/
theorem hasFile_iff_not_lost_of_edited_again :
    ∃ rounds r m rounds' l,
      Run textualGraphs ⟨.start ⟨500, 200, 5000, 1000⟩ .empty, []⟩ (rounds ++ [r]) m ∧
      (∃ reason files result, r.message = .analyzed reason files (.ok result)) ∧
      m.engine.store.graph.hasFile "b.py" = false ∧
      Run textualGraphs ⟨.start ⟨500, 200, 5000, 1000⟩ .empty, []⟩ (rounds ++ [r] ++ rounds') l ∧
      rounds'.map (·.message) = [.change ⟨"b.py", .modify⟩, .deadline] ∧
      l.engine.store.contents["b.py"]? = some "OpenAI().chat()\ndef g(): pass" ∧
      Relevance.isWorkflowFile "b.py" "OpenAI().chat()\ndef g(): pass" = true ∧
      (extract "OpenAI().chat()\ndef g(): pass" "b.py").toList ≠ [] ∧
      l.engine.store.graph.hasFile "b.py" = true ∧
      (l.engine.store.graph.hasFile "b.py" = true ↔ ¬ Lost "b.py" (rounds ++ [r] ++ rounds')) := by
  have hcomputed : ((hears ⟨.start ⟨500, 200, 5000, 1000⟩ .empty, []⟩
      (fun _ => some "OpenAI().chat()\ndef g(): pass")
      [(0, .change ⟨"a.py", .create⟩), (200, .deadline), (300, .analyze "manual"),
        (400, .change ⟨"b.py", .create⟩), (600, .deadline)]).bind fun l =>
      (l.answer 700 fun _ => none).bind fun m =>
      (m.hears (fun _ => some "OpenAI().chat()\ndef g(): pass")
        [(800, .change ⟨"b.py", .modify⟩), (1300, .deadline)]).map fun n =>
        (m.engine.store.graph.hasFile "b.py", n.engine.store.graph.hasFile "b.py",
          n.engine.store.contents["b.py"]?,
          Relevance.isWorkflowFile "b.py" "OpenAI().chat()\ndef g(): pass",
          (extract "OpenAI().chat()\ndef g(): pass" "b.py").toList.isEmpty)) =
      some (false, true, some "OpenAI().chat()\ndef g(): pass", true, false) := by
    decide +kernel
  obtain ⟨l, hl, hcomputed⟩ := Option.bind_eq_some_iff.mp hcomputed
  obtain ⟨m, hm, hcomputed⟩ := Option.bind_eq_some_iff.mp hcomputed
  obtain ⟨n, hn, hcomputed⟩ := Option.map_eq_some_iff.mp hcomputed
  simp only [Prod.mk.injEq, List.isEmpty_eq_false_iff] at hcomputed
  obtain ⟨hgone, hshown, hcontent, hworkflow, hfunctions⟩ := hcomputed
  obtain ⟨rounds, hrun, -⟩ := exists_run_of_hears textualGraphs hl (by
    simp only [List.forall_mem_cons]
    exact ⟨.change _, .deadline, .analyze _, .change _, .deadline, nofun⟩)
  obtain ⟨r, hanswer, hmessage⟩ := exists_takes_of_answer hm
  obtain ⟨rounds', hrun', hmessages⟩ := exists_run_of_hears textualGraphs hn (by
    simp only [List.forall_mem_cons]
    exact ⟨.change _, .deadline, nofun⟩)
  have hall := (hrun.snoc hanswer).trans hrun'
  exact ⟨rounds, r, m, rounds', n, hrun.snoc hanswer, hmessage, hgone, hall, hmessages, hcontent,
    hworkflow, hfunctions, hshown, hasFile_iff_not_lost hall hcontent hworkflow hfunctions⟩

set_option maxRecDepth 100000 in
/-- A file comes into the graph while an analysis of another runs, which then replaces the graph. No
change of a file waits after that. -/
theorem exists_lost_after_completion :
    ∃ rounds l r m content, Run textualGraphs ⟨.start ⟨500, 200, 5000, 1000⟩ .empty, []⟩ rounds l ∧
      l.Takes textualGraphs r m ∧
      (∃ reason files result, r.message = .analyzed reason files (.ok result)) ∧
      l.engine.store.graph.hasFile "b.py" = true ∧ m.engine.debounce.isEmpty = true ∧
      m.engine.store.isTracked "b.py" = true ∧
      m.engine.store.contents["b.py"]? = some content ∧
      Relevance.isWorkflowFile "b.py" content = true ∧ (extract content "b.py").toList ≠ [] ∧
      m.engine.store.graph.hasFile "b.py" = false := by
  have hcomputed : ((hears ⟨.start ⟨500, 200, 5000, 1000⟩ .empty, []⟩
      (fun _ => some "OpenAI().chat()\ndef g(): pass")
      [(0, .change ⟨"a.py", .create⟩), (200, .deadline), (300, .analyze "manual"),
        (400, .change ⟨"b.py", .create⟩), (600, .deadline)]).bind fun l =>
      (l.answer 700 fun _ => none).map fun m =>
        (l.engine.store.graph.hasFile "b.py" && m.engine.debounce.isEmpty,
          m.engine.store.isTracked "b.py", m.engine.store.contents["b.py"]?,
          m.engine.store.graph.hasFile "b.py",
          Relevance.isWorkflowFile "b.py" "OpenAI().chat()\ndef g(): pass",
          (extract "OpenAI().chat()\ndef g(): pass" "b.py").toList.isEmpty)) =
      some (true, true, some "OpenAI().chat()\ndef g(): pass", false, true, false) := by
    decide +kernel
  obtain ⟨l, hl, hcomputed⟩ := Option.bind_eq_some_iff.mp hcomputed
  obtain ⟨m, hm, hcomputed⟩ := Option.map_eq_some_iff.mp hcomputed
  simp only [Prod.mk.injEq, Bool.and_eq_true, List.isEmpty_eq_false_iff] at hcomputed
  obtain ⟨⟨hbefore, hwaiting⟩, htracked, hcontent, hafter, hworkflow, hfunctions⟩ := hcomputed
  obtain ⟨rounds, hrun, -⟩ := exists_run_of_hears textualGraphs hl (by
    simp only [List.forall_mem_cons]
    exact ⟨.change _, .deadline, .analyze _, .change _, .deadline, nofun⟩)
  obtain ⟨r, hanswer, hmessage⟩ := exists_takes_of_answer hm
  exact ⟨rounds, l, r, m, _, hrun, hanswer, hmessage, hbefore, hwaiting, htracked, hcontent,
    hworkflow, hfunctions, hafter⟩

end Loop

end Flowgraph
