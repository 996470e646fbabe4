import Flowgraph.Proofs.Deadlines
import Flowgraph.Proofs.Engine.Run
import Flowgraph.Proofs.Graph.Files
import Flowgraph.Proofs.Store.InStep
import Flowgraph.Syntax.Parsers

/-!
# Deleted files

A file that has been deleted is gone from the store, and no change of another file brings it back. Only
an analysis does that has been started on its content before the deletion.
-/

namespace Flowgraph

namespace Store

variable {s t : Store} {path file content : String} {g : Graph} {contents : Contents}

/-! ## Stores without a file -/

/-- The store neither tracks a file nor shows it. -/
structure Lacks (s : Store) (file : String) : Prop where
  callGraph_eq : s.callGraphs[file]? = none
  content_eq : s.contents[file]? = none
  graph : s.graph.Lacks file

theorem lacks_removeFile (s : Store) (path : String) : (s.removeFile path).store.Lacks path := by
  have hbare := ((s.graph.lacks_removeFile path).spliceFiles (s.resolver.removeFile path).resolver
    (s.resolver.removeFile path).affected.toList)
  obtain ⟨g, hstore, hg⟩ := store_removeFile s path
  rw [hstore]
  refine ⟨by simp, by simp, ?_⟩
  rcases hg with rfl | rfl
  · exact hbare
  · exact hbare.refreshEndpoints

namespace Lacks

theorem withFile (hs : s.Lacks file) (hne : path ≠ file) {calls : CallGraph} {entry : IndexEntry} :
    (s.withFile path content calls entry).Lacks file := by
  refine ⟨?_, ?_, hs.graph⟩
  · rw [getElem?_callGraphs_withFile, if_neg hne]
    exact hs.callGraph_eq
  · rw [getElem?_contents_withFile, if_neg hne]
    exact hs.content_eq

theorem withGraph (hs : s.Lacks file) (hg : g.Lacks file) : Lacks { s with graph := g } file :=
  ⟨hs.callGraph_eq, hs.content_eq, hg⟩

theorem update [Parsers] (hs : s.Lacks file) (hne : path ≠ file)
    (h : (Edit.update path content).apply s = .ok t) : t.Lacks file := by
  cases updates_of_apply h with
  | unsupported | refused => exact hs
  | remembered entry => exact hs.withFile hne
  | patched entry old u hlanguage hfile hold hdiff =>
    exact (hs.withFile hne).withGraph ((hs.graph.applyDiff hne.symm hdiff).spliceFiles _ _)
  | joined entry =>
    have hmerged := hs.graph.mergeFile hne.symm (extract content path)
    exact (hs.withFile hne).withGraph (hmerged.spliceFiles _ _)

theorem removeFile (hs : s.Lacks file) (path : String) : (s.removeFile path).store.Lacks file := by
  have hbare := ((hs.graph.removeFile path).spliceFiles (s.resolver.removeFile path).resolver
    (s.resolver.removeFile path).affected.toList)
  obtain ⟨g, hstore, hg⟩ := store_removeFile s path
  rw [hstore]
  refine ⟨?_, ?_, ?_⟩
  · simp [Std.ExtTreeMap.getElem?_erase, hs.callGraph_eq]
  · simp [Std.ExtTreeMap.getElem?_erase, hs.content_eq]
  · rcases hg with rfl | rfl
    · exact hbare
    · exact hbare.refreshEndpoints

theorem classify (hs : s.Lacks file) (entries : List Classification) :
    (s.classify entries).1.Lacks file :=
  hs.withGraph ((Graph.lacks_congr
    (Graph.map_nodes_classify Node.key (fun _ _ => rfl) s.graph entries)).mpr hs.graph)

theorem installAnalysis [Parsers] (hs : s.Lacks file) (hg : g.Lacks file) (hfile : file ∉ contents)
    {result : Store × List String} (h : s.installAnalysis g contents = .ok result) :
    result.1.Lacks file ∧ file ∉ result.2 := by
  obtain ⟨u, hu, rfl⟩ := Outcome.map_eq_ok.mp h
  have htracked : u.Lacks file := by
    refine Outcome.foldlM_preserves_of_mem (P := (Lacks · file)) (fun f hf s t htrack hs => ?_) hs hu
    obtain ⟨entry, -, rfl⟩ := trackFile_eq_ok.mp htrack
    refine hs.withFile ?_
    rintro rfl
    exact hfile (OrderedMap.mem_of_getElem? (Std.ExtTreeMap.mem_toList_iff_getElem?_eq_some.mp hf))
  refine ⟨⟨htracked.callGraph_eq, htracked.content_eq, hg⟩, ?_⟩
  simp [stalePaths, hs.content_eq]

theorem not_mem_analysisFiles (hs : s.Lacks file) : file ∉ s.analysisFiles := by
  rw [analysisFiles, Std.ExtTreeMap.mem_filter]
  rintro ⟨hmem, -⟩
  rw [Std.ExtTreeMap.mem_iff_isSome_getElem?, hs.content_eq] at hmem
  cases hmem

end Lacks

/-! ## Tracked files -/

theorem isTracked_withFile (hs : s.isTracked file = true) {calls : CallGraph} {entry : IndexEntry} :
    (s.withFile path content calls entry).isTracked file = true := by
  simp only [isTracked, Store.withFile, remember, Std.ExtTreeMap.contains_insert, Bool.or_eq_true]
  exact .inr hs

/-- No update of a file ends the tracking of another, or of the file itself. -/
theorem isTracked_update [Parsers] (hs : s.isTracked file = true)
    (h : (Edit.update path content).apply s = .ok t) : t.isTracked file = true := by
  have hkept (entry : IndexEntry) :
      (s.withFile path content (extract content path) entry).isTracked file = true :=
    isTracked_withFile hs
  cases updates_of_apply h with
  | unsupported | refused => exact hs
  | remembered entry | patched entry | joined entry => exact hkept entry

theorem isTracked_removeFile (hs : s.isTracked file = true) (hne : path ≠ file) :
    (s.removeFile path).store.isTracked file = true := by
  obtain ⟨g, hstore, -⟩ := store_removeFile s path
  simpa [hstore, isTracked, Std.ExtTreeMap.contains_erase, hne] using hs

/-- An analysis that is put in place tracks its files besides those that are tracked. -/
theorem isTracked_installAnalysis [Parsers] {result : Store × List String}
    (h : s.installAnalysis g contents = .ok result)
    (hs : s.isTracked file = true ∨ file ∈ contents) : result.1.isTracked file = true := by
  obtain ⟨u, hu, rfl⟩ := Outcome.map_eq_ok.mp h
  change u.isTracked file = true
  rcases hs with hs | hfile
  · refine Outcome.foldlM_preserves (P := fun s : Store => s.isTracked file = true)
      (fun s t f htrack hs => ?_) hs hu
    obtain ⟨entry, -, rfl⟩ := trackFile_eq_ok.mp htrack
    exact isTracked_withFile hs
  · obtain ⟨content, hcontent⟩ := Option.isSome_iff_exists.mp
      (Std.ExtTreeMap.mem_iff_isSome_getElem?.mp hfile)
    have hcallGraph := (tracks_foldlM_trackFile hu).callGraphs_of_mem (nodup_map_fst_toList contents)
      file content (Std.ExtTreeMap.mem_toList_iff_getElem?_eq_some.mpr hcontent)
    rw [isTracked, Std.ExtTreeMap.contains_iff_mem]
    exact OrderedMap.mem_of_getElem? hcallGraph

end Store

/-! ## Messages -/

namespace Message

def Deletes (file : String) (message : Message) : Prop := message = .change ⟨file, .delete⟩

/-- Whether a message tells that a file is new or has been edited. -/
def Announces (file : String) (message : Message) : Prop :=
  ∃ kind, kind ≠ .delete ∧ message = .change ⟨file, kind⟩

end Message

namespace Engine

variable {e : Engine} {read : String → Option String} {now : Nat} {message : Message} {s : Store}
  {d : Deadlines} {paths : List String} {t : Turn} {file : String}

/-- The engine has nothing of a file, and no change of it waits. -/
structure Forgets (e : Engine) (file : String) : Prop where
  store : e.store.Lacks file
  waiting : file ∉ e.debounce.times

variable [Parsers]

theorem Settles.forgets (h : Settles read s d paths t) (hs : s.Lacks file) (hd : file ∉ d.times)
    (hpaths : file ∉ paths) :
    t.engine.Forgets file ∧ ∀ reason files, .analyze reason files ∈ t.jobs → file ∉ files := by
  obtain ⟨hstore, hjobs⟩ := h.preserves (P := (·.Lacks file)) (fun path hpath content s t hupdate hs =>
    hs.update (fun heq => hpaths (heq ▸ hpath)) hupdate) hs
  refine ⟨⟨hstore, h.debounce_eq ▸ hd⟩, fun reason files hjob => ?_⟩
  obtain ⟨s', hs', rfl⟩ := hjobs reason files hjob
  exact hs'.not_mem_analysisFiles

/-- A deleted file is gone. -/
theorem Heard.lacks_of_deletes (h : e.Heard now message s d paths) (hmessage : message.Deletes file) :
    s.Lacks file ∧ file ∉ d.times ∧ file ∉ paths := by
  cases h with
  | deleted path =>
    obtain rfl : path = file := by
      injection hmessage with hchange
      injection hchange
    exact ⟨Store.lacks_removeFile e.store path,
      fun hmem => (Deadlines.mem_times_cancel.mp hmem).1 rfl, List.not_mem_nil⟩
  | changed path kind deadline hkind =>
    injection hmessage with hchange
    injection hchange with _ hdelete
    exact absurd hdelete hkind
  | _ => cases hmessage

/-- What is gone stays so until it is announced or restored. -/
theorem Heard.lacks (h : e.Heard now message s d paths) (he : e.Forgets file)
    (hquiet : ¬ message.Announces file) (hnot : ¬ message.Restores file)
    (hgraph : ∀ reason files result, message = .analyzed reason files (.ok result) →
      file ∉ files → result.graph.Lacks file) :
    s.Lacks file ∧ file ∉ d.times ∧ file ∉ paths := by
  cases h with
  | deleted path =>
    exact ⟨he.store.removeFile path, fun hmem => he.waiting (Deadlines.mem_times_cancel.mp hmem).2,
      List.not_mem_nil⟩
  | changed path kind deadline hkind =>
    refine ⟨he.store, fun hmem => ?_, List.not_mem_nil⟩
    rcases Deadlines.mem_times_schedule.mp hmem with rfl | hmem
    · exact hquiet ⟨kind, hkind, rfl⟩
    · exact he.waiting hmem
  | analyze | unclassified | unanalyzed => exact ⟨he.store, he.waiting, List.not_mem_nil⟩
  | deadline =>
    exact ⟨he.store, fun hmem => he.waiting (Deadlines.mem_times_of_mem_later hmem),
      fun hmem => he.waiting (Deadlines.mem_times_of_mem_due hmem)⟩
  | classified entries => exact ⟨he.store.classify entries, he.waiting, List.not_mem_nil⟩
  | analyzed reason files result store stale hinstall =>
    have hfile : file ∉ files := fun hmem => hnot ⟨reason, files, result, rfl, hmem⟩
    obtain ⟨hstore, hstale⟩ :=
      he.store.installAnalysis (hgraph reason files result rfl hfile) hfile hinstall
    refine ⟨hstore, fun hmem => ?_, List.not_mem_nil⟩
    exact (Deadlines.mem_times_foldl_schedule.mp hmem).elim hstale he.waiting

/-- A tracked file stays tracked until it is deleted, and a restored one is tracked. -/
theorem Heard.isTracked (h : e.Heard now message s d paths)
    (he : e.store.isTracked file = true ∨ message.Restores file) (hkept : ¬ message.Deletes file) :
    s.isTracked file = true := by
  have htracked (hnot : ¬ message.Restores file) : e.store.isTracked file = true :=
    he.resolve_right hnot
  cases h with
  | deleted path =>
    refine Store.isTracked_removeFile (htracked ?_) fun heq => hkept (by rw [heq]; rfl)
    rintro ⟨_, _, _, heq, -⟩
    cases heq
  | analyzed reason files result store stale hinstall =>
    refine Store.isTracked_installAnalysis hinstall (he.imp_right ?_)
    rintro ⟨reason', files', result', heq, hfile⟩
    injection heq with _ hfiles
    exact hfiles ▸ hfile
  | _ =>
    refine htracked ?_
    rintro ⟨_, _, _, heq, -⟩
    cases heq

end Engine

namespace Loop

variable {graphs : Contents → Graph → Prop} {l m n : Loop} {r : Round} {rounds : List Round}
  {file : String}

/-! ## Rounds -/

section Parsers

variable [Parsers]

theorem Takes.forgets_of_deletes (h : l.Takes graphs r m) (hmessage : r.message.Deletes file) :
    m.engine.Forgets file ∧
      ∀ reason files, .analyze reason files ∈ r.turn.jobs → file ∉ files := by
  obtain ⟨s, d, paths, hheard, hsettles⟩ := h.exists_heard
  obtain ⟨hs, hd, hpaths⟩ := hheard.lacks_of_deletes hmessage
  rw [h.engine_eq]
  exact hsettles.forgets hs hd hpaths

theorem Takes.forgets (h : l.Takes graphs r m)
    (hgraphs : ∀ files g, graphs files g → ∀ file, g.hasFile file = true → file ∈ files)
    (hl : l.engine.Forgets file) (hquiet : ¬ r.message.Announces file)
    (hnot : ¬ r.message.Restores file) :
    m.engine.Forgets file ∧
      ∀ reason files, .analyze reason files ∈ r.turn.jobs → file ∉ files := by
  obtain ⟨s, d, paths, hheard, hsettles⟩ := h.exists_heard
  obtain ⟨hs, hd, hpaths⟩ := hheard.lacks hl hquiet hnot fun reason files result hmessage hfile => by
    rw [Graph.lacks_iff, ← Bool.not_eq_true]
    exact fun hshown => hfile (hgraphs files _ (h.mem_jobs_of_analyzed hmessage).2 file hshown)
  rw [h.engine_eq]
  exact hsettles.forgets hs hd hpaths

theorem Takes.isTracked (h : l.Takes graphs r m)
    (hl : l.engine.store.isTracked file = true ∨ r.message.Restores file)
    (hkept : ¬ r.message.Deletes file) : m.engine.store.isTracked file = true := by
  obtain ⟨s, d, paths, hheard, hsettles⟩ := h.exists_heard
  rw [h.engine_eq]
  exact (hsettles.preserves (P := (·.isTracked file = true))
    (fun path _ content s t hupdate hs => Store.isTracked_update hs hupdate)
    (hheard.isTracked hl hkept)).1

/-! ## Runs -/

/-- Whether an analysis has come back with a file, and the file has not been deleted since. -/
def Restored (file : String) (rounds : List Round) : Prop :=
  Since (fun r : Round => r.message.Restores file) (fun r => r.message.Deletes file) rounds

theorem Run.isTracked_or_forgets (h : l.Run graphs rounds m)
    (hgraphs : ∀ files g, graphs files g → ∀ file, g.hasFile file = true → file ∈ files)
    (hquiet : ∀ r ∈ rounds, ¬ r.message.Announces file) (hl : l.engine.Forgets file) :
    (Restored file rounds → m.engine.store.isTracked file = true) ∧
      (¬ Restored file rounds → m.engine.Forgets file) := by
  induction h with
  | refl => exact ⟨fun hrestored => absurd hrestored not_since_nil, fun _ => hl⟩
  | @snoc rounds m n r hrun hround ih =>
    obtain ⟨htracked, hforgets⟩ := ih fun r hr => hquiet r (List.mem_append_left _ hr)
    have hlast := hquiet r (List.mem_append_right _ (List.mem_singleton_self r))
    rw [Restored, since_append_singleton]
    refine ⟨fun hrestored => ?_, fun hnot => ?_⟩
    · refine hround.isTracked (hrestored.symm.imp_left fun hbefore => htracked hbefore.1) ?_
      rcases hrestored with ⟨reason, files, result, heq, -⟩ | ⟨-, hkept⟩
      · rw [heq]
        exact nofun
      · exact hkept
    · rw [not_or, not_and, not_not] at hnot
      by_cases hdeletes : r.message.Deletes file
      · exact (hround.forgets_of_deletes hdeletes).1
      · exact (hround.forgets hgraphs (hforgets fun hbefore => hdeletes (hnot.2 hbefore)) hlast
          hnot.1).1

/-- Where no analysis in flight contains a file that is gone, none will restore it. -/
theorem Run.not_restored (h : l.Run graphs rounds m)
    (hgraphs : ∀ files g, graphs files g → ∀ file, g.hasFile file = true → file ∈ files)
    (hquiet : ∀ r ∈ rounds, ¬ r.message.Announces file) (hl : l.engine.Forgets file)
    (hjobs : ∀ reason files, .analyze reason files ∈ l.jobs → file ∉ files) :
    ¬ Restored file rounds := by
  suffices hall : m.engine.Forgets file ∧ (∀ reason files, .analyze reason files ∈ m.jobs →
      file ∉ files) ∧ ¬ Restored file rounds from hall.2.2
  induction h with
  | refl => exact ⟨hl, hjobs, not_since_nil⟩
  | @snoc rounds m n r hrun hround ih =>
    obtain ⟨hforgets, hflight, hbefore⟩ := ih fun r hr => hquiet r (List.mem_append_left _ hr)
    have hlast := hquiet r (List.mem_append_right _ (List.mem_singleton_self r))
    have hnot : ¬ r.message.Restores file := by
      rintro ⟨reason, files, result, hmessage, hfile⟩
      exact hflight reason files (hround.mem_jobs_of_analyzed hmessage).1 hfile
    obtain ⟨hforgets', hstarted⟩ := hround.forgets hgraphs hforgets hlast hnot
    refine ⟨hforgets', fun reason files hjob => ?_, ?_⟩
    · exact (hround.mem_jobs hjob).elim (hflight reason files) (hstarted reason files)
    · rw [Restored, since_append_singleton]
      exact fun hrestored => hrestored.elim hnot fun hold => hbefore hold.1

/-- After a file has been deleted, and while no change of it is announced, the engine has something of
it exactly if an analysis has come back with it. Only one does that was in flight at the deletion. -/
theorem isTracked_or_hasFile_iff_restored
    (hgraphs : ∀ files g, graphs files g → ∀ file, g.hasFile file = true → file ∈ files)
    (hdelete : l.Takes graphs r m) (hmessage : r.message.Deletes file) (hrun : m.Run graphs rounds n)
    (hquiet : ∀ r ∈ rounds, ¬ r.message.Announces file) :
    (n.engine.store.isTracked file = true ∨ n.engine.store.graph.hasFile file = true ↔
        Restored file rounds) ∧
      ((∀ reason files, .analyze reason files ∈ l.jobs → file ∉ files) → ¬ Restored file rounds) := by
  obtain ⟨hforgets, hstarted⟩ := hdelete.forgets_of_deletes hmessage
  obtain ⟨htracked, hgone⟩ := hrun.isTracked_or_forgets hgraphs hquiet hforgets
  refine ⟨⟨fun hpresent => ?_, fun hrestored => .inl (htracked hrestored)⟩, fun hflight => ?_⟩
  · by_contra hnot
    have hlacks := (hgone hnot).store
    rcases hpresent with hpresent | hpresent
    · rw [Store.isTracked, Std.ExtTreeMap.contains_eq_isSome_getElem?, hlacks.callGraph_eq] at hpresent
      cases hpresent
    · exact Bool.false_ne_true ((Graph.lacks_iff.mp hlacks.graph).symm.trans hpresent)
  · refine hrun.not_restored hgraphs hquiet hforgets fun reason files hjob => ?_
    exact (hdelete.mem_jobs hjob).elim (hflight reason files) (hstarted reason files)

end Parsers

set_option maxRecDepth 100000 in
/-- A file is deleted while no analysis runs, and then one of the others is asked for. -/
theorem isTracked_or_hasFile_iff_restored_of_no_analysis :
    ∃ s r m r' n, Store.empty.seed [("a.py", "OpenAI().chat()\ndef g(): pass"), ("b.py", "OpenAI().chat()")] =
        .ok s ∧ s.isTracked "a.py" = true ∧
      Takes textualGraphs ⟨.start ⟨500, 200, 5000, 1000⟩ s, []⟩ r m ∧ r.message.Deletes "a.py" ∧
      m.Run textualGraphs [r'] n ∧ r'.message = .analyze "manual" ∧ n.jobs.length = 1 ∧
      (n.engine.store.isTracked "a.py" = true ∨ n.engine.store.graph.hasFile "a.py" = true ↔
        Restored "a.py" [r']) ∧
      ¬ Restored "a.py" [r'] := by
  have hcomputed : ((Store.empty.seed
      [("a.py", "OpenAI().chat()\ndef g(): pass"), ("b.py", "OpenAI().chat()")]).toOption.bind fun s =>
      (hear ⟨.start ⟨500, 200, 5000, 1000⟩ s, []⟩ 0 (fun _ => none)
        (.change ⟨"a.py", .delete⟩)).bind fun m =>
      (m.hear 1 (fun _ => none) (.analyze "manual")).map fun n =>
        (s.isTracked "a.py", n.jobs.length)) = some (true, 1) := by
    decide +kernel
  obtain ⟨s, hs, hcomputed⟩ := Option.bind_eq_some_iff.mp hcomputed
  obtain ⟨m, hm, hcomputed⟩ := Option.bind_eq_some_iff.mp hcomputed
  obtain ⟨n, hn, hcomputed⟩ := Option.map_eq_some_iff.mp hcomputed
  obtain ⟨htracked, hjobs⟩ := Prod.mk.inj hcomputed
  obtain ⟨r, hdelete, hmessage⟩ := exists_takes_of_hear textualGraphs hm (.change _)
  obtain ⟨r', hask, hmessage'⟩ := exists_takes_of_hear textualGraphs hn (.analyze _)
  have hquiet : ∀ r ∈ [r'], ¬ r.message.Announces "a.py" := by
    rw [List.forall_mem_singleton, hmessage']
    exact fun ⟨_, _, heq⟩ => nomatch heq
  have hboth := isTracked_or_hasFile_iff_restored (fun _ _ => mem_of_textualGraphs) hdelete hmessage
    hask.run hquiet
  exact ⟨s, r, m, r', n, Outcome.toOption_eq_some.mp hs, htracked, hdelete, hmessage, hask.run,
    hmessage', hjobs, hboth.1, hboth.2 fun _ _ hjob => absurd hjob List.not_mem_nil⟩

set_option maxRecDepth 100000 in
/-- A file is deleted while an analysis of it runs, which brings it back. -/
theorem exists_restored_after_deletion :
    ∃ s before l r m after n, Store.empty.seed [("a.py", "OpenAI().chat()\ndef g(): pass")] = .ok s ∧
      Run textualGraphs ⟨.start ⟨500, 200, 5000, 1000⟩ s, []⟩ before l ∧ l.Takes textualGraphs r m ∧
      r.message.Deletes "a.py" ∧ m.Run textualGraphs after n ∧
      (∀ r ∈ after, ¬ r.message.Announces "a.py") ∧ n.engine.store.isTracked "a.py" = true ∧
      n.engine.store.graph.hasFile "a.py" = true := by
  have hcomputed : ((Store.empty.seed [("a.py", "OpenAI().chat()\ndef g(): pass")]).toOption.bind fun s =>
      (hear ⟨.start ⟨500, 200, 5000, 1000⟩ s, []⟩ 0 (fun _ => none) (.analyze "manual")).bind fun l =>
      (l.hear 1 (fun _ => none) (.change ⟨"a.py", .delete⟩)).bind fun m =>
      (m.answer 2 fun _ => none).map fun n =>
        (n.engine.store.isTracked "a.py", n.engine.store.graph.hasFile "a.py")) =
      some (true, true) := by
    decide +kernel
  obtain ⟨s, hs, hcomputed⟩ := Option.bind_eq_some_iff.mp hcomputed
  obtain ⟨l, hl, hcomputed⟩ := Option.bind_eq_some_iff.mp hcomputed
  obtain ⟨m, hm, hcomputed⟩ := Option.bind_eq_some_iff.mp hcomputed
  obtain ⟨n, hn, hcomputed⟩ := Option.map_eq_some_iff.mp hcomputed
  obtain ⟨htracked, hshown⟩ := Prod.mk.inj hcomputed
  obtain ⟨_, hask, -⟩ := exists_takes_of_hear textualGraphs hl (.analyze _)
  obtain ⟨r, hdelete, hmessage⟩ := exists_takes_of_hear textualGraphs hm (.change _)
  obtain ⟨r', hanswer, reason, files, result, hmessage'⟩ := exists_takes_of_answer hn
  refine ⟨s, _, l, r, m, [r'], n, Outcome.toOption_eq_some.mp hs, hask.run, hdelete, hmessage,
    hanswer.run, ?_, htracked, hshown⟩
  rw [List.forall_mem_singleton, hmessage']
  exact fun ⟨_, _, heq⟩ => nomatch heq

end Loop

end Flowgraph
