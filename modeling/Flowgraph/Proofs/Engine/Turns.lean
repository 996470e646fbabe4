import Flowgraph.Engine.Basic
import Flowgraph.Proofs.Store.Run

/-!
# Turns

What each reaction of the engine does to the store and to the changes that wait, what it reads, and
which jobs it starts.
-/

namespace Flowgraph

/-- The path that an effect reads. -/
def Effect.path? : Effect → Option String
  | read path => some path
  | emit _ | start _ => none

/-- The job that an effect starts. -/
def Effect.job? : Effect → Option Job
  | start job => some job
  | read _ | emit _ => none

/-- The event that an effect reports. -/
def Effect.event? : Effect → Option EngineEvent
  | emit event => some event
  | read _ | start _ => none

namespace Turn

variable {t : Turn} {f : Engine → Turn}

/-- The paths that have been read. -/
def reads (t : Turn) : List String := t.effects.filterMap Effect.path?

/-- The jobs that have been started. -/
def jobs (t : Turn) : List Job := t.effects.filterMap Effect.job?

theorem andThen_of_failure_eq_none (ht : t.failure = none) :
    t.andThen f = ⟨(f t.engine).engine, t.effects ++ (f t.engine).effects, (f t.engine).failure⟩ := by
  simp only [andThen, ht]

theorem failure_eq_none_of_andThen (h : (t.andThen f).failure = none) : t.failure = none := by
  cases ht : t.failure with
  | none => rfl
  | some failure =>
    simp only [andThen, ht] at h
    cases h

theorem failure_eq_none_of_forEach {α : Type} (items : List α) {g : α → Engine → Turn}
    (h : (t.forEach items g).failure = none) : t.failure = none := by
  induction items generalizing t with
  | nil => exact h
  | cons a items ih => exact failure_eq_none_of_andThen (ih h)

end Turn

namespace Engine

variable {e : Engine} {read : String → Option String} {now : Nat} {path : String} {s s' : Store}
  {d : Deadlines} {paths paths' : List String} {t : Turn} {f : Engine → Turn}

/-! ## Settling -/

variable [Parsers]

/-- Updates a file to the text that is read from it. One that cannot be read stays as it is. -/
def reread (read : String → Option String) (s : Store) (path : String) : Except ImportError Store :=
  match read path with
  | none => .ok s
  | some content => (Store.Edit.update path content).apply s

/-- A turn that goes on from a store and from waiting changes. It reads the given paths, one after
another, and changes the store by nothing else. Every analysis that it starts is one of the workflow
files that the store has held after some of them. -/
structure Settles (read : String → Option String) (s : Store) (d : Deadlines) (paths : List String)
    (t : Turn) : Prop where
  failure_eq : t.failure = none
  store_eq : paths.foldlM (reread read) s = .ok t.engine.store
  debounce_eq : t.engine.debounce = d
  reads_eq : t.reads = paths
  analyses : ∀ reason files, .analyze reason files ∈ t.jobs → ∃ done todo s', paths = done ++ todo ∧
    done.foldlM (reread read) s = .ok s' ∧ files = s'.analysisFiles

namespace Settles

theorem andThen (ht : Settles read s d paths t)
    (hf : Settles read t.engine.store t.engine.debounce paths' (f t.engine)) :
    Settles read s d (paths ++ paths') (t.andThen f) := by
  have hstore : (paths ++ paths').foldlM (reread read) s = .ok (f t.engine).engine.store := by
    rw [List.foldlM_append, ht.store_eq]
    exact hf.store_eq
  rw [Turn.andThen_of_failure_eq_none ht.failure_eq]
  refine ⟨hf.failure_eq, hstore, hf.debounce_eq.trans ht.debounce_eq, ?_, fun reason files hjob => ?_⟩
  · rw [Turn.reads, List.filterMap_append]
    exact congrArg₂ (· ++ ·) ht.reads_eq hf.reads_eq
  · rw [Turn.jobs, List.filterMap_append, List.mem_append] at hjob
    rcases hjob with hjob | hjob
    · obtain ⟨done, todo, s', rfl, hs', hfiles⟩ := ht.analyses reason files hjob
      exact ⟨done, todo ++ paths', s', List.append_assoc .., hs', hfiles⟩
    · obtain ⟨done, todo, s', rfl, hs', hfiles⟩ := hf.analyses reason files hjob
      refine ⟨paths ++ done, todo, s', (List.append_assoc ..).symm, ?_, hfiles⟩
      rw [List.foldlM_append, ht.store_eq]
      exact hs'

theorem andThen_of_forall (ht : Settles read s d paths t)
    (hf : ∀ e : Engine, Settles read e.store e.debounce [] (f e)) :
    Settles read s d paths (t.andThen f) := by
  have hboth := ht.andThen (hf t.engine)
  rwa [List.append_nil] at hboth

theorem forEach {α : Type} {g : α → Engine → Turn} (ht : Settles read s d paths t)
    (hg : ∀ (a : α) (e : Engine), Settles read e.store e.debounce [] (g a e)) (items : List α) :
    Settles read s d paths (t.forEach items g) := by
  induction items generalizing t with
  | nil => exact ht
  | cons a items ih => exact ih (ht.andThen_of_forall (hg a))

end Settles

theorem settles_make {effects : List Effect} (hstore : e.store = s) (hdebounce : e.debounce = d)
    (hreads : effects.filterMap Effect.path? = [])
    (hjobs : ∀ reason files, .analyze reason files ∉ effects.filterMap Effect.job?) :
    Settles read s d [] (.make e effects) :=
  ⟨rfl, congrArg Except.ok hstore.symm, hdebounce, hreads,
    fun reason files hjob => absurd hjob (hjobs reason files)⟩

theorem settles_quiet (hstore : e.store = s) (hdebounce : e.debounce = d) :
    Settles read s d [] (.quiet e) :=
  settles_make hstore hdebounce rfl fun _ _ => List.not_mem_nil

theorem settles_emit {event : EngineEvent} (hstore : e.store = s) (hdebounce : e.debounce = d) :
    Settles read s d [] (.make e [.emit event]) :=
  settles_make hstore hdebounce rfl fun _ _ => List.not_mem_nil

theorem settles_startAnalysis (reason : String) (e : Engine) :
    Settles read e.store e.debounce [] (e.startAnalysis reason) := by
  rw [startAnalysis]
  split
  · exact settles_quiet rfl rfl
  · simp only
    split
    · exact settles_quiet rfl rfl
    · refine ⟨rfl, rfl, rfl, rfl, fun reason' files hjob => ?_⟩
      obtain ⟨-, rfl⟩ : reason = reason' ∧ e.store.analysisFiles = files := by
        simpa [Turn.jobs, Turn.make, Effect.job?, eq_comm] using hjob
      exact ⟨[], [], e.store, rfl, rfl, rfl⟩

theorem settles_startQueued (e : Engine) : Settles read e.store e.debounce [] e.startQueued := by
  rw [startQueued]
  split
  · exact settles_quiet rfl rfl
  · exact settles_startAnalysis _ { e with analysisQueued := none }

theorem settles_setState (state : EditState) (functions : List String) (e : Engine) :
    Settles read e.store e.debounce [] (e.setState path state functions) :=
  settles_emit rfl rfl

theorem settles_applyPatch (patch : Patch) (e : Engine) :
    Settles read e.store e.debounce [] (e.applyPatch now path patch) := by
  rw [applyPatch]
  refine Settles.andThen_of_forall (settles_emit rfl rfl) fun e => ?_
  exact (settles_setState _ _ e).andThen_of_forall fun _ => settles_quiet rfl rfl

theorem settles_followUpdate (patch : Option Patch) (e : Engine) :
    Settles read e.store e.debounce [] (e.followUpdate now path patch) := by
  cases patch with
  | some patch =>
    rw [followUpdate]
    split
    · exact settles_quiet rfl rfl
    · exact settles_applyPatch patch e
  | none =>
    rw [followUpdate]
    split
    · exact settles_startAnalysis _
        { e with editing := e.editing.cancel path, activity := e.activity.erase path }
    · exact settles_quiet rfl rfl

theorem settles_updateFile (h : (e.updateFile read now path).failure = none) :
    Settles read e.store e.debounce [path] (e.updateFile read now path) := by
  rw [updateFile] at h ⊢
  cases hread : read path with
  | none =>
    refine ⟨rfl, ?_, rfl, rfl, fun _ _ hjob => absurd hjob List.not_mem_nil⟩
    exact Outcome.foldlM_cons_eq_ok.mpr ⟨e.store, by simp only [reread, hread], rfl⟩
  | some content =>
    simp only [hread] at h ⊢
    cases hupdate : e.store.localUpdate path content with
    | error failure =>
      rw [hupdate] at h
      cases h
    | ok result =>
      obtain ⟨store, patch⟩ := result
      have hupdated : Settles read e.store e.debounce [path] (.make { e with store } [.read path]) := by
        refine ⟨rfl, ?_, rfl, rfl, fun _ _ hjob => absurd hjob List.not_mem_nil⟩
        refine Outcome.foldlM_cons_eq_ok.mpr ⟨store, ?_, rfl⟩
        simp only [reread, hread, Store.Edit.apply, hupdate, Except.map]
      exact hupdated.andThen_of_forall (settles_followUpdate patch)

theorem Settles.forEach_updateFile (ht : Settles read s d paths t)
    (h : (t.forEach paths' (updateFile read now)).failure = none) :
    Settles read s d (paths ++ paths') (t.forEach paths' (updateFile read now)) := by
  induction paths' generalizing t paths with
  | nil => rwa [List.append_nil]
  | cons path paths' ih =>
    have hfirst : (t.andThen (updateFile read now path)).failure = none :=
      Turn.failure_eq_none_of_forEach paths' h
    rw [Turn.andThen_of_failure_eq_none ht.failure_eq] at hfirst
    have hnext := ih (ht.andThen (settles_updateFile hfirst)) h
    rwa [List.append_assoc] at hnext

theorem settles_handleInactive (e : Engine) :
    Settles read e.store e.debounce [] (e.handleInactive now) := by
  have hquiet : Settles read e.store e.debounce []
      (.quiet { e with editing := e.editing.later now }) := settles_quiet rfl rfl
  exact hquiet.forEach (fun path => settles_setState .changed []) _

theorem settles_handleBatch (e : Engine) :
    Settles read e.store e.debounce [] (e.handleBatch now) := by
  rw [handleBatch]
  split
  · exact settles_quiet rfl rfl
  · simp only
    split
    · exact settles_quiet rfl rfl
    · exact settles_make rfl rfl rfl (by simp [Effect.job?])

theorem settles_handleSettled (h : (e.handleSettled read now).failure = none) :
    Settles read e.store (e.debounce.later now) (e.debounce.due now) (e.handleSettled read now) := by
  have hstart : Settles read e.store (e.debounce.later now) []
      (.quiet { e with debounce := e.debounce.later now }) := settles_quiet rfl rfl
  exact hstart.forEach_updateFile h

/-- When the engine wakes, it reads the files of which the changes have settled. -/
theorem settles_wake (h : (e.wake read now).failure = none) :
    Settles read e.store (e.debounce.later now) (e.debounce.due now) (e.wake read now) := by
  have hsettled : (e.handleSettled read now).failure = none :=
    Turn.failure_eq_none_of_andThen (Turn.failure_eq_none_of_andThen h)
  exact ((settles_handleSettled hsettled).andThen_of_forall settles_handleInactive).andThen_of_forall
    settles_handleBatch

/-- What every update of a file that is read keeps holds after the turn, and of every store that an
analysis has been started on. -/
theorem Settles.preserves {P : Store → Prop} (h : Settles read s d paths t)
    (hupdate : ∀ path ∈ paths, ∀ content s t, (Store.Edit.update path content).apply s = .ok t →
      P s → P t) (hs : P s) :
    P t.engine.store ∧ ∀ reason files, .analyze reason files ∈ t.jobs →
      ∃ s', P s' ∧ files = s'.analysisFiles := by
  have hreread : ∀ path ∈ paths, ∀ s t, reread read s path = .ok t → P s → P t := by
    intro path hpath s t happly hs
    rw [reread] at happly
    split at happly
    · cases happly
      exact hs
    · exact hupdate path hpath _ s t happly hs
  refine ⟨Outcome.foldlM_preserves_of_mem hreread hs h.store_eq, fun reason files hjob => ?_⟩
  obtain ⟨done, todo, s', rfl, hdone, hfiles⟩ := h.analyses reason files hjob
  refine ⟨s', Outcome.foldlM_preserves_of_mem (fun path hpath => ?_) hs hdone, hfiles⟩
  exact hreread path (List.mem_append_left _ hpath)

/-! ## Messages -/

/-- What a message makes of the store and of the waiting changes, and the files to be read after
that. -/
inductive Heard (now : Nat) (e : Engine) : Message → Store → Deadlines → List String → Prop
  | deleted (path : String) :
      Heard now e (.change ⟨path, .delete⟩) (e.store.removeFile path).store (e.debounce.cancel path) []
  | changed (path : String) (kind : ChangeKind) (deadline : Nat) (hkind : kind ≠ .delete) :
      Heard now e (.change ⟨path, kind⟩) e.store (e.debounce.schedule path deadline) []
  | analyze (reason : String) : Heard now e (.analyze reason) e.store e.debounce []
  | deadline : Heard now e .deadline e.store (e.debounce.later now) (e.debounce.due now)
  | classified (entries : List Classification) :
      Heard now e (.classified (.ok entries)) (e.store.classify entries).1 e.debounce []
  | unclassified (error : String) : Heard now e (.classified (.error error)) e.store e.debounce []
  | analyzed (reason : String) (files : Contents) (result : AnalysisResult) (store : Store)
      (stale : List String) (hinstall : e.store.installAnalysis result.graph files = .ok (store, stale)) :
      Heard now e (.analyzed reason files (.ok result)) store
        (stale.foldl (fun d path => d.schedule path now) e.debounce) []
  | unanalyzed (reason : String) (files : Contents) (error : String) :
      Heard now e (.analyzed reason files (.error error)) e.store e.debounce []

theorem settles_deleteFile (path : String) (e : Engine) :
    Settles read (e.store.removeFile path).store (e.debounce.cancel path) [] (e.deleteFile path) := by
  rw [deleteFile]
  split
  · exact settles_quiet rfl rfl
  · exact settles_emit rfl rfl

theorem settles_takeClassification (entries : List Classification) (e : Engine) :
    Settles read (e.store.classify entries).1 e.debounce [] (e.takeClassification (.ok entries)) := by
  cases hclassify : e.store.classify entries with
  | mk store ids =>
    simp only [takeClassification, hclassify]
    split
    · exact settles_quiet rfl rfl
    · exact settles_emit rfl rfl

theorem settles_install {files : Contents} {result : AnalysisResult} {stale : List String}
    (h : e.store.installAnalysis result.graph files = .ok (s', stale)) :
    Settles read s' (stale.foldl (fun d path => d.schedule path now) e.debounce) []
      (e.install now files result) := by
  simp only [install, h]
  refine settles_make rfl rfl ?_ ?_
  · simp [List.filterMap_eq_nil_iff, Effect.path?]
  · simp [List.mem_filterMap, Effect.job?]

/-- The reaction to a message, unless it fails: first what the message makes of the store, and then the
files that are read. -/
theorem exists_heard {message : Message} (h : (e.step read now message).failure = none) :
    ∃ s d paths, e.Heard now message s d paths ∧ Settles read s d paths (e.step read now message) := by
  cases message with
  | change c =>
    obtain ⟨path, kind⟩ := c
    cases kind with
    | delete => exact ⟨_, _, _, .deleted path, settles_deleteFile path e⟩
    | create => exact ⟨_, _, _, .changed path .create _ nofun, settles_quiet rfl rfl⟩
    | modify => exact ⟨_, _, _, .changed path .modify _ nofun, settles_quiet rfl rfl⟩
  | analyze reason => exact ⟨_, _, _, .analyze reason, settles_startAnalysis reason e⟩
  | deadline => exact ⟨_, _, _, .deadline, settles_wake h⟩
  | classified answer =>
    cases answer with
    | error error => exact ⟨_, _, _, .unclassified error, settles_quiet rfl rfl⟩
    | ok entries => exact ⟨_, _, _, .classified entries, settles_takeClassification entries e⟩
  | analyzed reason files answer =>
    have hstopped : (e.takeAnalysis now reason files answer).failure = none := h
    cases answer with
    | error error =>
      have hfailed : Settles read e.store e.debounce []
          (.make { e with analysisRunning := false } [.emit (.analysisFailed reason error)]) :=
        settles_emit rfl rfl
      exact ⟨_, _, _, .unanalyzed reason files error, hfailed.andThen_of_forall settles_startQueued⟩
    | ok result =>
      cases hinstall : e.store.installAnalysis result.graph files with
      | error failure =>
        -- The failure to put the graph in place would be one of the step.
        have hfailed := Turn.failure_eq_none_of_andThen hstopped
        simp only [install, hinstall] at hfailed
        cases hfailed
      | ok installed =>
        obtain ⟨store, stale⟩ := installed
        have hinstalled : Settles read store
            (stale.foldl (fun d path => d.schedule path now) e.debounce) []
            (install now files result { e with analysisRunning := false }) :=
          settles_install (e := { e with analysisRunning := false }) hinstall
        exact ⟨_, _, _, .analyzed reason files result store stale hinstall,
          hinstalled.andThen_of_forall settles_startQueued⟩

end Engine

end Flowgraph
