import Flowgraph.Proofs.Engine.Run
import Flowgraph.Syntax.Parsers

/-!
# One analysis at a time

No more than one analysis is in flight, and a request that comes meanwhile waits until it has come
back. The wait ends with an analysis of the workflow files that the store then holds.
-/

namespace Flowgraph

/-- Whether a job is an analysis. -/
def Job.isAnalysis : Job → Bool
  | classify _ => false
  | analyze .. => true

/-- Whether a message is the outcome of an analysis. -/
def Message.Concludes (message : Message) : Prop :=
  ∃ reason files answer, message = .analyzed reason files answer

namespace Store

variable {s : Store}

/-- An analysis of files of which the imports can be read can be put in place. -/
theorem exists_installAnalysis [Parsers] (s : Store) (g : Graph) {files : Contents}
    (hfiles : ∀ path ∈ files, Relevance.isAnalyzable path = true) :
    ∃ result, s.installAnalysis g files = .ok result := by
  have htrack : ∀ f ∈ files.toList, ∀ s : Store, ∃ t, s.trackFile f.1 f.2 = .ok t := by
    rintro ⟨path, content⟩ hf s
    have hmem := OrderedMap.mem_of_getElem? (Std.ExtTreeMap.mem_toList_iff_getElem?_eq_some.mp hf)
    obtain ⟨entry, hentry⟩ :=
      exists_ofFile_of_isAnalyzable (hfiles path hmem) content (extract content path)
    exact ⟨_, trackFile_eq_ok.mpr ⟨entry, hentry, rfl⟩⟩
  obtain ⟨t, ht⟩ := Outcome.exists_foldlM_eq_ok htrack s
  exact ⟨_, Outcome.map_eq_ok.mpr ⟨t, ht, rfl⟩⟩

theorem isAnalyzable_of_mem_analysisFiles {path : String} (h : path ∈ s.analysisFiles) :
    Relevance.isAnalyzable path = true := by
  rw [analysisFiles, Std.ExtTreeMap.mem_filter] at h
  obtain ⟨hmem, hworkflow⟩ := h
  rw [Std.ExtTreeMap.getKey_eq] at hworkflow
  exact (Bool.and_eq_true_iff.mp hworkflow).1

end Store

namespace Turn

/-- The number of analyses that have been started. -/
def analyses (t : Turn) : Nat := t.jobs.countP Job.isAnalysis

/-- The turn ends with the start of an analysis of all workflow files, if there are any. -/
structure Restarts (t : Turn) : Prop where
  failure_eq : t.failure = none
  starts : t.engine.store.analysisFiles.isEmpty = false →
    ∃ reason, [.emit (.analysisStarted reason t.engine.store.analysisFiles.size),
      .start (.analyze reason t.engine.store.analysisFiles)] <:+ t.effects
  idle : t.engine.store.analysisFiles.isEmpty = true →
    t.analyses = 0 ∧ t.engine.analysisRunning = false

variable {t : Turn} {f : Engine → Turn}

theorem analyses_andThen (ht : t.failure = none) :
    (t.andThen f).analyses = t.analyses + (f t.engine).analyses := by
  rw [andThen_of_failure_eq_none ht]
  simp only [analyses, jobs, List.filterMap_append, List.countP_append]

end Turn

namespace Engine

variable {e e' : Engine} {read : String → Option String} {now : Nat} {message : Message} {t : Turn}
  {f : Engine → Turn} {reason path : String} {files : Contents}

/-! ## Requests -/

/-- A request for an analysis, with the state in which the engine meets it: a command, or the change of
an analyzed file that cannot be patched. -/
inductive Asks [Parsers] (read : String → Option String) (now : Nat) (e : Engine) :
    Message → Engine → String → Prop
  | command (reason : String) : Asks read now e (.analyze reason) e reason
  | fallback (done : List String) (path : String) (todo : List String) (content : String)
      (e' : Engine) (store : Store) (hdue : e.debounce.due now = done ++ path :: todo)
      (hbefore : e' = ((Turn.quiet { e with debounce := e.debounce.later now }).forEach done
        (updateFile read now)).engine)
      (hread : read path = some content)
      (hupdate : e'.store.localUpdate path content = .ok (store, none))
      (hanalyzed : store.wasAnalyzed path = true) :
      Asks read now e .deadline e' ("fallback:" ++ path)

/-! ## Turns -/

/-- A turn from `e` on starts an analysis only where none runs, and drops no request. One comes to wait
only behind an analysis that runs. -/
structure Paces (e : Engine) (t : Turn) : Prop where
  running_eq : t.engine.analysisRunning.toNat = e.analysisRunning.toNat + t.analyses
  keeps : e.analysisQueued.isSome = true → t.engine.analysisQueued.isSome = true
  waits : t.engine.analysisQueued.isSome = true →
    e.analysisQueued.isSome = true ∨ t.engine.analysisRunning = true

theorem Paces.isRunning (h : e.Paces t) (he : e.analysisRunning = true) :
    t.engine.analysisRunning = true := by
  have hrunning := h.running_eq
  cases ht : t.engine.analysisRunning with
  | true => rfl
  | false =>
    rw [he, ht, Bool.toNat_true, Bool.toNat_false] at hrunning
    omega

theorem Paces.andThen (ht : e.Paces t) (hf : t.engine.Paces (f t.engine)) :
    e.Paces (t.andThen f) := by
  cases hfailure : t.failure with
  | some failure => simpa only [Turn.andThen, hfailure] using ht
  | none =>
    have hanalyses := Turn.analyses_andThen (f := f) hfailure
    have hengine : (t.andThen f).engine = (f t.engine).engine := by
      rw [Turn.andThen_of_failure_eq_none hfailure]
    refine ⟨?_, fun hqueued => ?_, fun hqueued => ?_⟩
    · rw [hengine, hanalyses, hf.running_eq, ht.running_eq, Nat.add_assoc]
    · rw [hengine]
      exact hf.keeps (ht.keeps hqueued)
    · rw [hengine] at hqueued ⊢
      rcases hf.waits hqueued with hbefore | hrunning
      · exact (ht.waits hbefore).imp_right hf.isRunning
      · exact .inr hrunning

theorem Paces.forEach {α : Type} {g : α → Engine → Turn} (ht : e.Paces t)
    (hg : ∀ (a : α) (e : Engine), e.Paces (g a e)) (items : List α) :
    e.Paces (t.forEach items g) := by
  induction items generalizing t with
  | nil => exact ht
  | cons a items ih => exact ih (ht.andThen (hg a _))

/-- A turn that has nothing to do with analyses. -/
theorem paces_of_eq (hrunning : t.engine.analysisRunning = e.analysisRunning)
    (hqueued : t.engine.analysisQueued = e.analysisQueued) (hjobs : t.analyses = 0) : e.Paces t where
  running_eq := by rw [hrunning, hjobs, Nat.add_zero]
  keeps := by rw [hqueued]; exact id
  waits := by rw [hqueued]; exact .inl

theorem paces_quiet (hrunning : e'.analysisRunning = e.analysisRunning)
    (hqueued : e'.analysisQueued = e.analysisQueued) : e.Paces (.quiet e') :=
  paces_of_eq hrunning hqueued rfl

theorem paces_emit {event : EngineEvent} (hrunning : e'.analysisRunning = e.analysisRunning)
    (hqueued : e'.analysisQueued = e.analysisQueued) : e.Paces (.make e' [.emit event]) :=
  paces_of_eq hrunning hqueued rfl

theorem startAnalysis_of_running (h : e.analysisRunning = true) :
    e.startAnalysis reason = .quiet { e with analysisQueued := some reason } := by
  rw [startAnalysis, if_pos h]

theorem startAnalysis_of_idle (h : e.analysisRunning = false) :
    e.startAnalysis reason =
      if e.store.analysisFiles.isEmpty = true then .quiet e
      else .make { e with analysisRunning := true }
        [.emit (.analysisStarted reason e.store.analysisFiles.size),
          .start (.analyze reason e.store.analysisFiles)] := by
  rw [startAnalysis, h]
  rfl

theorem paces_startAnalysis (reason : String) (e : Engine) : e.Paces (e.startAnalysis reason) := by
  cases hrunning : e.analysisRunning with
  | true =>
    rw [startAnalysis_of_running hrunning]
    exact ⟨rfl, fun _ => rfl, fun _ => .inr hrunning⟩
  | false =>
    rw [startAnalysis_of_idle hrunning]
    split
    · exact paces_quiet rfl rfl
    · exact ⟨by rw [hrunning]; rfl, id, .inl⟩

theorem paces_setState (state : EditState) (functions : List String) (e : Engine) :
    e.Paces (e.setState path state functions) :=
  paces_emit rfl rfl

theorem paces_followUpdate (patch : Option Patch) (e : Engine) :
    e.Paces (e.followUpdate now path patch) := by
  cases patch with
  | some patch =>
    rw [followUpdate]
    split
    · exact paces_quiet rfl rfl
    · exact paces_of_eq rfl rfl rfl
  | none =>
    rw [followUpdate]
    split
    · have hcancelled : e.Paces
          (.quiet { e with editing := e.editing.cancel path, activity := e.activity.erase path }) :=
        paces_quiet rfl rfl
      exact hcancelled.andThen (paces_startAnalysis _ _)
    · exact paces_quiet rfl rfl

theorem paces_updateFile [Parsers] (path : String) (e : Engine) : e.Paces (e.updateFile read now path) := by
  rw [updateFile]
  split
  · exact paces_of_eq rfl rfl rfl
  · split
    · exact paces_of_eq rfl rfl rfl
    · have hread (store : Store) : e.Paces (.make { e with store } [.read path]) :=
        paces_of_eq rfl rfl rfl
      exact (hread _).andThen (paces_followUpdate _ _)

theorem paces_handleInactive (e : Engine) : e.Paces (e.handleInactive now) := by
  have hlater : e.Paces (.quiet { e with editing := e.editing.later now }) := paces_quiet rfl rfl
  exact hlater.forEach (fun path e => paces_setState .changed [] e) _

theorem paces_handleBatch (e : Engine) : e.Paces (e.handleBatch now) := by
  rw [handleBatch]
  split
  · exact paces_quiet rfl rfl
  · simp only
    split
    · exact paces_quiet rfl rfl
    · exact paces_of_eq rfl rfl rfl

theorem paces_wake [Parsers] (e : Engine) : e.Paces (e.wake read now) := by
  have hlater : e.Paces (.quiet { e with debounce := e.debounce.later now }) := paces_quiet rfl rfl
  exact ((hlater.forEach (fun path e => paces_updateFile path e) _).andThen
    (paces_handleInactive _)).andThen (paces_handleBatch _)

/-- Whatever is not the outcome of an analysis leaves the running one alone. -/
theorem paces_step [Parsers] (hmessage : ¬ message.Concludes) : e.Paces (e.step read now message) := by
  cases message with
  | change c =>
    obtain ⟨path, kind⟩ := c
    cases kind with
    | delete =>
      change e.Paces (e.deleteFile path)
      rw [deleteFile]
      split
      · exact paces_quiet rfl rfl
      · exact paces_emit rfl rfl
    | create | modify => exact paces_quiet rfl rfl
  | analyze reason => exact paces_startAnalysis reason e
  | deadline => exact paces_wake e
  | classified answer =>
    cases answer with
    | error error => exact paces_quiet rfl rfl
    | ok entries =>
      change e.Paces (if (e.store.classify entries).2.isEmpty = true then _ else _)
      split
      · exact paces_quiet rfl rfl
      · exact paces_emit rfl rfl
  | analyzed reason files answer => exact absurd ⟨reason, files, answer, rfl⟩ hmessage

/-! ## Waiting requests -/

/-- What waits after a turn waits after whatever comes next. -/
theorem isSome_queued_andThen (ht : t.engine.analysisQueued.isSome = true)
    (hf : t.engine.Paces (f t.engine)) : (t.andThen f).engine.analysisQueued.isSome = true := by
  cases hfailure : t.failure with
  | some failure => simpa only [Turn.andThen, hfailure] using ht
  | none =>
    rw [Turn.andThen_of_failure_eq_none hfailure]
    exact hf.keeps ht

theorem isSome_queued_forEach {α : Type} {g : α → Engine → Turn}
    (ht : t.engine.analysisQueued.isSome = true) (hg : ∀ (a : α) (e : Engine), e.Paces (g a e))
    (items : List α) : (t.forEach items g).engine.analysisQueued.isSome = true := by
  induction items generalizing t with
  | nil => exact ht
  | cons a items ih => exact ih (isSome_queued_andThen ht (hg a _))

variable [Parsers]

/-- A file that cannot be patched while an analysis runs makes a request that waits. -/
theorem isSome_queued_updateFile {content : String} {store : Store}
    (hrunning : e.analysisRunning = true) (hread : read path = some content)
    (hupdate : e.store.localUpdate path content = .ok (store, none))
    (hanalyzed : store.wasAnalyzed path = true) :
    (e.updateFile read now path).engine.analysisQueued.isSome = true := by
  simp only [updateFile, hread, hupdate, Turn.make, Turn.andThen, followUpdate, hanalyzed, if_true,
    startAnalysis, hrunning]
  rfl

/-- A request that comes while an analysis runs waits at the end of the turn. -/
theorem Asks.isSome_queued (h : e.Asks read now message e' reason)
    (hrunning : e'.analysisRunning = true) (hdone : (e.step read now message).failure = none) :
    (e.step read now message).engine.analysisQueued.isSome = true := by
  cases h with
  | command reason =>
    change (e.startAnalysis reason).engine.analysisQueued.isSome = true
    rw [startAnalysis_of_running hrunning]
    rfl
  | fallback done path todo content e' store hdue hbefore hread hupdate hanalyzed =>
    change (e.wake read now).failure = none at hdone
    change (e.wake read now).engine.analysisQueued.isSome = true
    have hsettled := Turn.failure_eq_none_of_andThen (Turn.failure_eq_none_of_andThen hdone)
    rw [wake]
    refine isSome_queued_andThen (isSome_queued_andThen ?_ (paces_handleInactive _))
      (paces_handleBatch _)
    rw [handleSettled, hdue, Turn.forEach, List.foldl_append, List.foldl_cons] at hsettled ⊢
    refine isSome_queued_forEach ?_ (fun path e => paces_updateFile path e) todo
    have hfirst := Turn.failure_eq_none_of_andThen (Turn.failure_eq_none_of_forEach todo hsettled)
    rw [Turn.andThen_of_failure_eq_none hfirst]
    exact hbefore ▸ isSome_queued_updateFile hrunning hread hupdate hanalyzed

/-! ## Outcomes -/

/-- Taking the outcome of an analysis frees the engine for the next one. It does not fail where the
imports of the analyzed files can be read. -/
theorem exists_taken (e : Engine) (now : Nat) (reason : String)
    (answer : Except String AnalysisResult)
    (hfiles : ∀ path ∈ files, Relevance.isAnalyzable path = true) :
    ∃ t : Turn, t.failure = none ∧ t.analyses = 0 ∧ t.engine.analysisRunning = false ∧
      t.engine.analysisQueued = e.analysisQueued ∧
      e.takeAnalysis now reason files answer = t.andThen startQueued := by
  cases answer with
  | error error =>
    exact ⟨.make { e with analysisRunning := false } [.emit (.analysisFailed reason error)],
      rfl, rfl, rfl, rfl, rfl⟩
  | ok result =>
    obtain ⟨⟨store, stale⟩, hinstall⟩ := e.store.exists_installAnalysis result.graph hfiles
    refine ⟨install now files result { e with analysisRunning := false }, ?_, ?_, ?_, ?_, rfl⟩
    · simp only [install, hinstall]
      rfl
    · simp only [install, hinstall]
      simp [Turn.analyses, Turn.jobs, Turn.make, Effect.job?]
    · simp only [install, hinstall]
      rfl
    · simp only [install, hinstall]
      rfl

omit [Parsers] in
theorem startQueued_of_some (h : e.analysisQueued = some reason) (hidle : e.analysisRunning = false) :
    e.startQueued =
      if e.store.analysisFiles.isEmpty = true then .quiet { e with analysisQueued := none }
      else .make { e with analysisRunning := true, analysisQueued := none }
        [.emit (.analysisStarted reason e.store.analysisFiles.size),
          .start (.analyze reason e.store.analysisFiles)] := by
  simp only [startQueued, h]
  exact startAnalysis_of_idle hidle

omit [Parsers] in
/-- After the queued analysis has been started, no request waits, and an analysis runs if it is one that
has just been started. -/
theorem running_startQueued (hidle : e.analysisRunning = false) :
    e.startQueued.engine.analysisRunning.toNat = e.startQueued.analyses ∧
      e.startQueued.engine.analysisQueued = none := by
  cases hqueued : e.analysisQueued with
  | none =>
    simp only [startQueued, hqueued]
    exact ⟨congrArg Bool.toNat hidle, hqueued⟩
  | some reason =>
    rw [startQueued_of_some hqueued hidle]
    split
    · exact ⟨congrArg Bool.toNat hidle, rfl⟩
    · exact ⟨rfl, rfl⟩

theorem running_takeAnalysis (e : Engine) (now : Nat) (reason : String)
    (answer : Except String AnalysisResult)
    (hfiles : ∀ path ∈ files, Relevance.isAnalyzable path = true) :
    (e.takeAnalysis now reason files answer).engine.analysisRunning.toNat =
        (e.takeAnalysis now reason files answer).analyses ∧
      (e.takeAnalysis now reason files answer).engine.analysisQueued = none := by
  obtain ⟨t, hdone, hnone, hidle, -, heq⟩ := exists_taken e now reason answer hfiles
  rw [heq, Turn.analyses_andThen hdone, hnone, Nat.zero_add, Turn.andThen_of_failure_eq_none hdone]
  exact running_startQueued hidle

/-- A request that waits is met once the outcome of the running analysis has been taken. -/
theorem restarts_takeAnalysis {answer : Except String AnalysisResult}
    (hfiles : ∀ path ∈ files, Relevance.isAnalyzable path = true)
    (hqueued : e.analysisQueued.isSome = true) : (e.takeAnalysis now reason files answer).Restarts := by
  obtain ⟨t, hdone, hnone, hidle, hwaits, heq⟩ := exists_taken e now reason answer hfiles
  obtain ⟨reason', hreason⟩ := Option.isSome_iff_exists.mp (hwaits ▸ hqueued)
  have hstart := startQueued_of_some hreason hidle
  rw [heq, Turn.andThen_of_failure_eq_none hdone, hstart]
  split
  next hempty =>
    refine ⟨rfl, fun hsome => ?_, fun _ => ⟨?_, hidle⟩⟩
    · exact absurd hsome (by simp [Turn.quiet, Turn.make, hempty])
    · rw [← hnone]
      simp [Turn.analyses, Turn.jobs, Turn.quiet, Turn.make]
  next hempty =>
    refine ⟨rfl, fun _ => ⟨reason', List.suffix_append ..⟩, fun hnot => ?_⟩
    exact absurd hnot (by simpa [Turn.make] using hempty)

end Engine

/-! ## Runs -/

namespace Loop

variable {graphs : Contents → Graph → Prop} {timing : Timing} {s : Store} {l m n : Loop} {r : Round}
  {rounds : List Round}

/-- An analysis is in flight exactly while the engine counts one as running, and a request waits only
behind it. -/
structure SingleFlight (l : Loop) : Prop where
  running_eq : l.jobs.countP Job.isAnalysis = l.engine.analysisRunning.toNat
  running_of_queued : l.engine.analysisQueued.isSome = true → l.engine.analysisRunning = true
  analyzable : ∀ reason files, .analyze reason files ∈ l.jobs →
    ∀ path ∈ files, Relevance.isAnalyzable path = true

theorem singleFlight_start (timing : Timing) (s : Store) : SingleFlight ⟨.start timing s, []⟩ where
  running_eq := rfl
  running_of_queued := nofun
  analyzable := nofun

section Parsers

variable [Parsers]

theorem Takes.analyzable (h : l.Takes graphs r m) (hl : l.SingleFlight) :
    ∀ reason files, .analyze reason files ∈ m.jobs →
      ∀ path ∈ files, Relevance.isAnalyzable path = true := by
  intro reason files hjob
  rcases h.mem_jobs hjob with hold | hnew
  · exact hl.analyzable reason files hold
  · obtain ⟨s, d, paths, -, hsettles⟩ := h.exists_heard
    obtain ⟨-, -, s', -, -, rfl⟩ := hsettles.analyses reason files hnew
    exact fun path hpath => Store.isAnalyzable_of_mem_analysisFiles hpath

section Turns

variable {e : Engine} {jobs : List Job} {t : Turn} {now : Nat} {read : String → Option String}

omit [Parsers] in
theorem singleFlight_of_paces (ht : e.Paces t)
    (hrunning : jobs.countP Job.isAnalysis = e.analysisRunning.toNat)
    (hqueued : e.analysisQueued.isSome = true → e.analysisRunning = true)
    (hjobs : ∀ reason files, .analyze reason files ∈ jobs ++ t.jobs →
      ∀ path ∈ files, Relevance.isAnalyzable path = true) : SingleFlight ⟨t.engine, jobs ++ t.jobs⟩ where
  running_eq := by rw [List.countP_append, hrunning, ht.running_eq, Turn.analyses]
  running_of_queued hwaits :=
    (ht.waits hwaits).elim (fun hbefore => ht.isRunning (hqueued hbefore)) id
  analyzable := hjobs

/-- The outcome of the only analysis in flight leaves at most the one that it starts. -/
theorem SingleFlight.concludes {before after : List Job} {reason : String} {files : Contents}
    (hl : SingleFlight ⟨e, before ++ .analyze reason files :: after⟩) (now : Nat)
    (answer : Except String AnalysisResult)
    (hjobs : ∀ reason' files', .analyze reason' files' ∈
        before ++ after ++ (e.takeAnalysis now reason files answer).jobs →
      ∀ path ∈ files', Relevance.isAnalyzable path = true) :
    SingleFlight ⟨(e.takeAnalysis now reason files answer).engine,
      before ++ after ++ (e.takeAnalysis now reason files answer).jobs⟩ := by
  obtain ⟨hrunning, hqueued⟩ := e.running_takeAnalysis now reason answer
    (hl.analyzable reason files (List.mem_append_right _ List.mem_cons_self))
  have hnone : (before ++ after).countP Job.isAnalysis = 0 := by
    have hflight := hl.running_eq
    simp only [List.countP_append, List.countP_cons, Job.isAnalysis, if_true] at hflight
    have hone := e.analysisRunning.toNat_le
    rw [List.countP_append]
    omega
  refine ⟨?_, fun hwaits => ?_, hjobs⟩
  · rw [List.countP_append, hnone, Nat.zero_add, hrunning, Turn.analyses]
  · rw [hqueued] at hwaits
    cases hwaits

end Turns

theorem SingleFlight.takes (hl : l.SingleFlight) (h : l.Takes graphs r m) : m.SingleFlight := by
  have hjobs := h.analyzable hl
  cases h with
  | unasked e jobs now read message hmessage hdone =>
    have hnot : ¬ message.Concludes := by
      rintro ⟨reason, files, answer, rfl⟩
      cases hmessage
    exact singleFlight_of_paces (Engine.paces_step hnot) hl.running_eq hl.running_of_queued hjobs
  | answer e before job after now read message hjob hdone =>
    cases hjob with
    | classified request answer =>
      have hnot : ¬ (Message.classified answer).Concludes := nofun
      refine singleFlight_of_paces (Engine.paces_step hnot) ?_ hl.running_of_queued hjobs
      simpa [Job.isAnalysis] using hl.running_eq
    | analyzed reason files result hgraph => exact hl.concludes now (.ok result) hjobs
    | failed reason files error => exact hl.concludes now (.error error) hjobs

theorem SingleFlight.run (hl : l.SingleFlight) (h : l.Run graphs rounds m) : m.SingleFlight := by
  induction h with
  | refl => exact hl
  | snoc _ hround ih => exact ih.takes hround

/-- A request that waits is kept as long as no outcome of an analysis comes. -/
theorem Takes.isSome_queued (h : l.Takes graphs r m)
    (hl : l.engine.analysisQueued.isSome = true) (hmessage : ¬ r.message.Concludes) :
    m.engine.analysisQueued.isSome = true := by
  cases h with
  | unasked | answer => exact (Engine.paces_step hmessage).keeps hl

theorem Run.isSome_queued (h : l.Run graphs rounds m)
    (hl : l.engine.analysisQueued.isSome = true)
    (hmessages : ∀ r ∈ rounds, ¬ r.message.Concludes) : m.engine.analysisQueued.isSome = true := by
  induction h with
  | refl => exact hl
  | @snoc rounds m n r _ hround ih =>
    refine hround.isSome_queued (ih fun r hr => hmessages r (List.mem_append_left _ hr)) ?_
    exact hmessages r (List.mem_append_right _ (List.mem_singleton_self r))

/-- A request that is made while an analysis runs waits at the end of the round. -/
theorem Takes.isSome_queued_of_asks (h : l.Takes graphs r m) {e : Engine} {reason : String}
    (hasks : l.engine.Asks r.read r.now r.message e reason) (hrunning : e.analysisRunning = true) :
    m.engine.analysisQueued.isSome = true := by
  cases h with
  | unasked e jobs now read message hmessage hdone => exact hasks.isSome_queued hrunning hdone
  | answer e before job after now read message hjob hdone =>
    exact hasks.isSome_queued hrunning hdone

/-- In every run, no more than one analysis is in flight, the engine counts one as running exactly while
one is, and a request waits only behind it. A request that is made while an analysis runs is met when
the analysis comes back, with whatever answer. -/
theorem countP_isAnalysis_and_restarts (h : Run graphs ⟨.start timing s, []⟩ rounds l) :
    l.jobs.countP Job.isAnalysis = l.engine.analysisRunning.toNat ∧
      (l.engine.analysisQueued.isSome = true → l.engine.analysisRunning = true) ∧
      ∀ r m e reason later n, l.Takes graphs r m →
        l.engine.Asks r.read r.now r.message e reason → e.analysisRunning = true →
        m.Run graphs later n → (∀ r ∈ later, ¬ r.message.Concludes) →
        ∀ now read reason files answer, .analyze reason files ∈ n.jobs →
          (n.engine.step read now (.analyzed reason files answer)).Restarts := by
  have hflight := (singleFlight_start timing s).run h
  refine ⟨hflight.running_eq, hflight.running_of_queued, ?_⟩
  intro r m e reason later n hround hasks hrunning hlater hquiet now read reason' files answer hjob
  have hqueued := hlater.isSome_queued (hround.isSome_queued_of_asks hasks hrunning) hquiet
  exact Engine.restarts_takeAnalysis
    (((hflight.takes hround).run hlater).analyzable reason' files hjob) hqueued

end Parsers

set_option maxRecDepth 100000 in
/-- An analysis is asked for while another runs, which then fails. -/
theorem countP_isAnalysis_and_restarts_after_failure :
    ∃ rounds l r m files, Run textualGraphs ⟨.start ⟨500, 200, 5000, 1000⟩ .empty, []⟩ rounds l ∧
      l.engine.analysisRunning = true ∧ l.jobs.countP Job.isAnalysis = 1 ∧
      l.Takes textualGraphs r m ∧ r.message = .analyze "second" ∧
      m.jobs = [.analyze "first" files] ∧ m.engine.store.analysisFiles.isEmpty = false ∧
      (m.engine.step (fun _ => none) 500 (.analyzed "first" files (.error "timeout"))).Restarts := by
  have hcomputed : ((hears ⟨.start ⟨500, 200, 5000, 1000⟩ .empty, []⟩
      (fun _ => some "OpenAI().chat()\ndef g(): pass")
      [(0, .change ⟨"a.py", .create⟩), (200, .deadline), (300, .analyze "first")]).bind fun l =>
      (l.hear 400 (fun _ => none) (.analyze "second")).map fun m =>
        (l.engine.analysisRunning, m.engine.store.analysisFiles.isEmpty, m.jobs.map fun
          | .analyze reason _ => some reason
          | .classify _ => none)) = some (true, false, [some "first"]) := by
    decide +kernel
  obtain ⟨l, hl, hcomputed⟩ := Option.bind_eq_some_iff.mp hcomputed
  obtain ⟨m, hm, hcomputed⟩ := Option.map_eq_some_iff.mp hcomputed
  simp only [Prod.mk.injEq] at hcomputed
  obtain ⟨hrunning, hfiles, hjobs⟩ := hcomputed
  obtain ⟨job, hjobs, hfirst⟩ := List.map_eq_singleton_iff.mp hjobs
  obtain ⟨files, rfl⟩ : ∃ files, job = .analyze "first" files := by
    cases job with
    | analyze reason files => exact ⟨files, by rw [Option.some.inj hfirst]⟩
    | classify => cases hfirst
  obtain ⟨rounds, hrun, -⟩ := exists_run_of_hears textualGraphs hl (by
    simp only [List.forall_mem_cons]
    exact ⟨.change _, .deadline, .analyze _, nofun⟩)
  have hround := takes_of_hear textualGraphs hm (.analyze _)
  obtain ⟨hcount, -, hrestarts⟩ := countP_isAnalysis_and_restarts hrun
  rw [hrunning] at hcount
  refine ⟨rounds, l, _, m, files, hrun, hrunning, hcount, hround, rfl, hjobs, hfiles, ?_⟩
  refine hrestarts _ m l.engine "second" [] m hround (.command "second") hrunning .refl nofun 500 _
    "first" files _ ?_
  rw [hjobs]
  exact List.mem_singleton_self _

end Loop

end Flowgraph
