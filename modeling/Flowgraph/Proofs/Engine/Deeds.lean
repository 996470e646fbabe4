import Flowgraph.Proofs.Deadlines
import Flowgraph.Proofs.Engine.Run

/-!
# Deeds of the engine

A turn is a chain of deeds, each of which changes the graph, the highlights or the batch in one way.
A run is then the log of all that is seen of the engine, and what every deed keeps holds after it.
-/

namespace Flowgraph

/-! ## Occurrences -/

/-- What is seen of the engine: a message that it hears, or an effect. -/
inductive Occurrence where
  | heard (message : Message)
  | effect (effect : Effect)

namespace Occurrence

/-- An event that the engine reports. -/
abbrev event (event : EngineEvent) : Occurrence := .effect (.emit event)

/-- Whether an occurrence tells nothing of nodes, of highlights and of deleted files. -/
def isAside : Occurrence → Bool
  | heard (.change c) => c.kind != .delete
  | heard _ => true
  | effect (.read _) => true
  | effect (.emit (.analysisStarted ..)) => true
  | effect (.emit (.analysisFailed ..)) => true
  | effect (.start (.analyze ..)) => true
  | effect _ => false

end Occurrence

namespace Engine

/-! ## Deeds -/

/-- The functions that the edits of a file have touched since the last analysis. -/
def touched (e : Engine) (path : String) : List String :=
  (e.activity[path]?.map (·.functions)).getD []

/-- The engine without a file. Renderers still see it. -/
def without (path : String) (e : Engine) : Engine :=
  { e with
    store := (e.store.removeFile path).store
    debounce := e.debounce.cancel path
    editing := e.editing.cancel path
    activity := e.activity.erase path
    batcher := e.batcher.forget path }

/-- The engine on a store to which a patch of a file has led. The file is shown as active. -/
def onPatched (now : Nat) (path : String) (store : Store) (patch : Patch) (e : Engine) : Engine :=
  { e with
    store
    batcher := e.batcher.enqueue path patch.needsMetadata now
    published := store.graph
    activity := e.activity.insert path
      ⟨.active, addNew (e.touched path) (touchedFunctions store.graph patch)⟩
    editing := e.editing.schedule path (now + e.timing.editingInactivity) }

/-- The engine on a store into which an analysis has been put. -/
def onInstalled (now : Nat) (store : Store) (stale : List String) (e : Engine) : Engine :=
  { e with
    store
    debounce := stale.foldl (fun d path => d.schedule path now) e.debounce
    editing := .empty
    activity := ∅
    batcher := store.pendingByFile.toList.foldl (fun b f => b.enqueue f.1 f.2.toList now) e.batcher
    analysisRunning := false
    published := store.graph }

variable [Parsers]

/-- One deed of the engine, with what is seen of it and the state after it. An analysis comes to a graph
that `graphs` relates its files to. -/
inductive Deed (graphs : Contents → Graph → Prop) (read : String → Option String) (now : Nat)
    (e : Engine) : List Occurrence → Engine → Prop
  /-- Whatever concerns only the waiting changes and the analysis to come. -/
  | aside (seen : List Occurrence) (debounce : Deadlines) (running : Bool) (queued : Option String)
      (hseen : ∀ o ∈ seen, o.isAside = true) :
      Deed graphs read now e seen
        { e with debounce, analysisRunning := running, analysisQueued := queued }
  /-- A file is deleted of which the graph has nothing. -/
  | forgotten (path : String) (hempty : (e.store.removeFile path).patch.isEmpty = true) :
      Deed graphs read now e [.heard (.change ⟨path, .delete⟩)] (e.without path)
  | deleted (path : String) (hempty : (e.store.removeFile path).patch.isEmpty = false) :
      Deed graphs read now e
        [.heard (.change ⟨path, .delete⟩), .event (.graphPatched path (e.store.removeFile path).patch
          (e.store.removeFile path).store.graph)]
        (e.without path).publish
  /-- An update of a file does not change the graph but for the lines of nodes. -/
  | refreshed (path content : String) (store : Store) (patch : Patch) (hread : read path = some content)
      (hupdate : e.store.localUpdate path content = .ok (store, some patch))
      (hempty : patch.isEmpty = true) :
      Deed graphs read now e [] (publish { e with store })
  | patched (path content : String) (store : Store) (patch : Patch) (hread : read path = some content)
      (hupdate : e.store.localUpdate path content = .ok (store, some patch))
      (hempty : patch.isEmpty = false) :
      Deed graphs read now e
        [.event (.graphPatched path patch store.graph), .event (.fileState path .active
          (addNew (e.touched path) (touchedFunctions store.graph patch)))]
        (e.onPatched now path store patch)
  /-- There is no patch for a file that has not been analyzed. -/
  | ignored (path content : String) (store : Store) (hread : read path = some content)
      (hupdate : e.store.localUpdate path content = .ok (store, none))
      (hanalyzed : store.wasAnalyzed path = false) :
      Deed graphs read now e [] { e with store }
  /-- There is no patch for a file that has been analyzed. -/
  | abandoned (path content : String) (store : Store) (hread : read path = some content)
      (hupdate : e.store.localUpdate path content = .ok (store, none))
      (hanalyzed : store.wasAnalyzed path = true) :
      Deed graphs read now e []
        { e with store, editing := e.editing.cancel path, activity := e.activity.erase path }
  /-- A file has been quiet for long enough. -/
  | calmed (path : String) (hdue : path ∈ e.editing.due now) :
      Deed graphs read now e [.event (.fileState path .changed (e.touched path))]
        { e with
          editing := e.editing.cancel path
          activity := e.activity.insert path ⟨.changed, e.touched path⟩ }
  | flushed (hdue : e.batcher.isDue now = true)
      (hempty : (e.store.classificationRequest e.batcher.pending).isEmpty = true) :
      Deed graphs read now e [] { e with batcher := .empty e.batcher.window }
  | requested (hdue : e.batcher.isDue now = true)
      (hempty : (e.store.classificationRequest e.batcher.pending).isEmpty = false) :
      Deed graphs read now e
        [.effect (.start (.classify (e.store.classificationRequest e.batcher.pending)))]
        { e with batcher := .empty e.batcher.window }
  | unclassified (entries : List Classification) (hids : (e.store.classify entries).2 = []) :
      Deed graphs read now e [] { e with store := (e.store.classify entries).1 }
  | classified (entries : List Classification) (hids : (e.store.classify entries).2 ≠ []) :
      Deed graphs read now e [.event (.nodesClassified (e.store.classify entries).2)]
        (publish { e with store := (e.store.classify entries).1 })
  | installed (reason : String) (files : Contents) (result : AnalysisResult) (store : Store)
      (stale : List String) (hgraph : graphs files result.graph)
      (hinstall : e.store.installAnalysis result.graph files = .ok (store, stale)) :
      Deed graphs read now e
        (.heard (.analyzed reason files (.ok result)) ::
          .event (.analysisCompleted store.graph.nodes.length store.graph.edges.length
            result.fromCache) ::
          e.editedFiles.map fun path => .event (.fileState path .unchanged []))
        (e.onInstalled now store stale)

/-- One deed after another. -/
inductive Deeds (graphs : Contents → Graph → Prop) (read : String → Option String) (now : Nat)
    (e : Engine) : List Occurrence → Engine → Prop
  | refl : Deeds graphs read now e [] e
  | snoc {seen seen' : List Occurrence} {e₁ e₂ : Engine} (hdeeds : Deeds graphs read now e seen e₁)
      (hdeed : e₁.Deed graphs read now seen' e₂) : Deeds graphs read now e (seen ++ seen') e₂

variable {graphs : Contents → Graph → Prop} {read : String → Option String} {now : Nat}
  {e e₁ e₂ : Engine} {seen seen' heard : List Occurrence} {t : Turn} {f : Engine → Turn}
  {path : String}

theorem Deed.timing_eq (h : e.Deed graphs read now seen e₁) : e₁.timing = e.timing := by
  cases h <;> rfl

theorem Deed.deeds (h : e.Deed graphs read now seen e₁) : e.Deeds graphs read now seen e₁ :=
  .snoc .refl h

theorem Deeds.trans (h : e.Deeds graphs read now seen e₁) (h' : e₁.Deeds graphs read now seen' e₂) :
    e.Deeds graphs read now (seen ++ seen') e₂ := by
  induction h' with
  | refl => rwa [List.append_nil]
  | snoc _ hdeed ih =>
    rw [← List.append_assoc]
    exact ih.snoc hdeed

/-! ## Turns -/

/-- A turn that consists of deeds, after some messages have been heard. -/
structure Does (graphs : Contents → Graph → Prop) (read : String → Option String) (now : Nat)
    (e : Engine) (heard : List Occurrence) (t : Turn) : Prop where
  failure_eq : t.failure = none
  deeds : e.Deeds graphs read now (heard ++ t.effects.map .effect) t.engine

theorem Does.andThen (ht : e.Does graphs read now heard t)
    (hf : t.engine.Does graphs read now [] (f t.engine)) :
    e.Does graphs read now heard (t.andThen f) := by
  rw [Turn.andThen_of_failure_eq_none ht.failure_eq]
  refine ⟨hf.failure_eq, ?_⟩
  rw [List.map_append, ← List.append_assoc]
  exact ht.deeds.trans hf.deeds

/-- A message is heard before the deeds of the turn. -/
theorem Does.after (hheard : ∀ o ∈ heard, o.isAside = true) (ht : e.Does graphs read now [] t) :
    e.Does graphs read now heard t :=
  ⟨ht.failure_eq, (Deed.deeds (.aside heard e.debounce _ _ hheard)).trans ht.deeds⟩

theorem does_make {effects : List Effect}
    (h : e.Deed graphs read now (heard ++ effects.map .effect) e₁) :
    e.Does graphs read now heard (.make e₁ effects) :=
  ⟨rfl, h.deeds⟩

/-- A turn that concerns only the waiting changes and the analysis to come. -/
theorem does_aside {effects : List Effect} (debounce : Deadlines) (running : Bool)
    (queued : Option String) (hheard : ∀ o ∈ heard, o.isAside = true)
    (heffects : ∀ effect ∈ effects, Occurrence.isAside (.effect effect) = true) :
    e.Does graphs read now heard
      (.make { e with debounce, analysisRunning := running, analysisQueued := queued } effects) :=
  does_make (.aside _ debounce running queued (by
    rw [List.forall_mem_append, List.forall_mem_map]
    exact ⟨hheard, heffects⟩))

theorem does_quiet (e : Engine) : e.Does graphs read now [] (.quiet e) :=
  ⟨rfl, .refl⟩

theorem does_startAnalysis (reason : String) (e : Engine) :
    e.Does graphs read now [] (e.startAnalysis reason) := by
  rw [startAnalysis]
  split
  · exact does_aside _ _ _ (List.forall_mem_nil _) (List.forall_mem_nil _)
  · simp only
    split
    · exact does_quiet e
    · exact does_aside _ _ _ (List.forall_mem_nil _) (by simp [Occurrence.isAside])

theorem does_startQueued (e : Engine) : e.Does graphs read now [] e.startQueued := by
  rw [startQueued]
  split
  · exact does_quiet e
  · have hunqueued : e.Does graphs read now [] (.quiet { e with analysisQueued := none }) :=
      does_aside _ _ _ (List.forall_mem_nil _) (List.forall_mem_nil _)
    exact hunqueued.andThen (does_startAnalysis _ _)

theorem does_deleteFile (path : String) (e : Engine) :
    e.Does graphs read now [.heard (.change ⟨path, .delete⟩)] (e.deleteFile path) := by
  rw [deleteFile]
  cases hempty : (e.store.removeFile path).patch.isEmpty with
  | true => exact does_make (.forgotten path hempty)
  | false => exact does_make (.deleted path hempty)

theorem does_takeClassification (answer : Except String (List Classification)) (e : Engine) :
    e.Does graphs read now [] (e.takeClassification answer) := by
  cases answer with
  | error error => exact does_quiet e
  | ok entries =>
    change e.Does graphs read now [] (if (e.store.classify entries).2.isEmpty = true then _ else _)
    split
    next hids => exact does_make (.unclassified entries (List.isEmpty_iff.mp hids))
    next hids => exact does_make (.classified entries (mt List.isEmpty_iff.mpr hids))

/-! ## Updates -/

theorem does_followUpdate {content : String} {store : Store} {patch : Option Patch}
    (hread : read path = some content) (hupdate : e.store.localUpdate path content = .ok (store, patch)) :
    e.Does graphs read now [] (followUpdate now path patch { e with store }) := by
  cases patch with
  | some patch =>
    rw [followUpdate]
    cases hempty : patch.isEmpty with
    | true => exact does_make (.refreshed path content store patch hread hupdate hempty)
    | false => exact does_make (.patched path content store patch hread hupdate hempty)
  | none =>
    rw [followUpdate]
    cases hanalyzed : store.wasAnalyzed path with
    | false => exact does_make (.ignored path content store hread hupdate hanalyzed)
    | true =>
      have habandoned : e.Does graphs read now []
          (.quiet { e with
            store, editing := e.editing.cancel path, activity := e.activity.erase path }) :=
        does_make (.abandoned path content store hread hupdate hanalyzed)
      exact habandoned.andThen (does_startAnalysis _ _)

theorem does_updateFile (h : (e.updateFile read now path).failure = none) :
    e.Does graphs read now [] (e.updateFile read now path) := by
  have hreads : e.Does graphs read now [] (.make e [.read path]) :=
    does_aside _ _ _ (List.forall_mem_nil _) (by simp [Occurrence.isAside])
  rw [updateFile] at h ⊢
  cases hread : read path with
  | none => exact hreads
  | some content =>
    simp only [hread] at h ⊢
    cases hupdate : e.store.localUpdate path content with
    | error failure =>
      rw [hupdate] at h
      cases h
    | ok result =>
      obtain ⟨store, patch⟩ := result
      exact hreads.andThen (f := fun e => followUpdate now path patch { e with store })
        (does_followUpdate hread hupdate)

theorem Does.forEach_updateFile {paths : List String} (ht : e.Does graphs read now [] t)
    (h : (t.forEach paths (updateFile read now)).failure = none) :
    e.Does graphs read now [] (t.forEach paths (updateFile read now)) := by
  induction paths generalizing t with
  | nil => exact ht
  | cons path paths ih =>
    have hfirst : (t.andThen (updateFile read now path)).failure = none :=
      Turn.failure_eq_none_of_forEach paths h
    rw [Turn.andThen_of_failure_eq_none ht.failure_eq] at hfirst
    exact ih (ht.andThen (does_updateFile hfirst)) h

/-! ## Deadlines -/

/-- The files that are quiet are calmed one after another, although all their deadlines are dropped
first. -/
theorem Does.forEach_calm {effects : List Effect} {paths : List String}
    (ht : e.Does graphs read now heard (.make e₁ effects)) (hnodup : paths.Nodup)
    (hdue : ∀ path ∈ paths, path ∈ e₁.editing.due now) :
    e.Does graphs read now heard
      ((Turn.make { e₁ with editing := paths.foldl .cancel e₁.editing } effects).forEach paths
        fun path e => e.setState path .changed []) := by
  induction paths generalizing e₁ effects with
  | nil => exact ht
  | cons path paths ih =>
    obtain ⟨hnew, hnodup⟩ := List.nodup_cons.mp hnodup
    obtain ⟨hfirst, hrest⟩ := List.forall_mem_cons.mp hdue
    have hcalmed : e₁.Does graphs read now [] (.make
        { e₁ with
          editing := e₁.editing.cancel path
          activity := e₁.activity.insert path ⟨.changed, e₁.touched path⟩ }
        [.emit (.fileState path .changed (e₁.touched path))]) :=
      does_make (.calmed path hfirst)
    refine ih (ht.andThen (f := fun _ => .make _ _) hcalmed) hnodup fun other hother => ?_
    exact Deadlines.mem_due_cancel.mpr ⟨fun heq => hnew (heq ▸ hother), hrest other hother⟩

theorem does_handleInactive (e : Engine) : e.Does graphs read now [] (e.handleInactive now) := by
  rw [handleInactive, Deadlines.later_eq_foldl_cancel]
  exact (does_quiet e).forEach_calm Deadlines.nodup_due fun _ hpath => hpath

theorem does_handleBatch (e : Engine) : e.Does graphs read now [] (e.handleBatch now) := by
  simp only [handleBatch, Batcher.due?, Batcher.later]
  cases hdue : e.batcher.isDue now with
  | false => exact does_quiet e
  | true =>
    simp only [if_true]
    cases hempty : (e.store.classificationRequest e.batcher.pending).isEmpty with
    | true => exact does_make (.flushed hdue hempty)
    | false => exact does_make (.requested hdue hempty)

theorem does_wake (h : (e.wake read now).failure = none) :
    e.Does graphs read now [] (e.wake read now) := by
  have hsettled : (e.handleSettled read now).failure = none :=
    Turn.failure_eq_none_of_andThen (Turn.failure_eq_none_of_andThen h)
  have hwoke : e.Does graphs read now [] (.quiet { e with debounce := e.debounce.later now }) :=
    does_aside _ _ _ (List.forall_mem_nil _) (List.forall_mem_nil _)
  exact ((hwoke.forEach_updateFile hsettled).andThen (does_handleInactive _)).andThen
    (does_handleBatch _)

/-! ## Messages -/

theorem does_takeAnalysis {reason : String} {files : Contents}
    {answer : Except String AnalysisResult}
    (hgraph : ∀ result, answer = .ok result → graphs files result.graph)
    (h : (e.takeAnalysis now reason files answer).failure = none) :
    e.Does graphs read now [.heard (.analyzed reason files answer)]
      (e.takeAnalysis now reason files answer) := by
  cases answer with
  | error error =>
    have hfailed : e.Does graphs read now [.heard (.analyzed reason files (.error error))]
        (.make { e with analysisRunning := false } [.emit (.analysisFailed reason error)]) :=
      does_aside _ _ _ (by simp [Occurrence.isAside]) (by simp [Occurrence.isAside])
    exact hfailed.andThen (does_startQueued _)
  | ok result =>
    cases hinstall : e.store.installAnalysis result.graph files with
    | error failure =>
      have hfailed := Turn.failure_eq_none_of_andThen h
      simp only [install, hinstall] at hfailed
      cases hfailed
    | ok installed =>
      obtain ⟨store, stale⟩ := installed
      have hinstalled : e.Does graphs read now [.heard (.analyzed reason files (.ok result))]
          (install now files result { e with analysisRunning := false }) := by
        simp only [install, hinstall]
        refine does_make ?_
        rw [List.map_cons, List.map_map]
        exact .installed reason files result store stale (hgraph result rfl) hinstall
      exact hinstalled.andThen (does_startQueued _)

/-- A turn that does not fail consists of deeds. -/
theorem does_step {message : Message}
    (hgraph : ∀ reason files result, message = .analyzed reason files (.ok result) →
      graphs files result.graph)
    (h : (e.step read now message).failure = none) :
    e.Does graphs read now [.heard message] (e.step read now message) := by
  have haside (hmessage : Occurrence.isAside (.heard message) = true) :
      ∀ o ∈ [Occurrence.heard message], o.isAside = true :=
    List.forall_mem_singleton.mpr hmessage
  cases message with
  | change c =>
    obtain ⟨path, kind⟩ := c
    cases kind with
    | delete => exact does_deleteFile path e
    | create | modify => exact does_aside _ _ _ (haside rfl) (List.forall_mem_nil _)
  | analyze reason => exact (does_startAnalysis reason e).after (haside rfl)
  | deadline => exact (does_wake h).after (haside rfl)
  | classified answer => exact (does_takeClassification answer e).after (haside rfl)
  | analyzed reason files answer =>
    exact does_takeAnalysis (fun result hanswer => hgraph reason files result (hanswer ▸ rfl)) h

end Engine

/-! ## The log of a run -/

/-- What is seen in a round, with its time. -/
def Round.log (r : Round) : List (Nat × Occurrence) :=
  ((.heard r.message :: r.turn.effects.map .effect) : List Occurrence).map (r.now, ·)

namespace Loop

variable {graphs : Contents → Graph → Prop} {l m : Loop} {r : Round} {rounds : List Round}

/-- What has been seen in a run. -/
def log (rounds : List Round) : List (Nat × Occurrence) := rounds.flatMap Round.log

theorem log_append_singleton (rounds : List Round) (r : Round) :
    log (rounds ++ [r]) = log rounds ++ r.log := by
  rw [log, List.flatMap_append, List.flatMap_singleton, log]

variable [Parsers]

theorem Takes.deeds (h : l.Takes graphs r m) :
    l.engine.Deeds graphs r.read r.now (.heard r.message :: r.turn.effects.map .effect) m.engine := by
  have hgraph (reason files result) (heq : r.message = .analyzed reason files (.ok result)) :
      graphs files result.graph :=
    (h.mem_jobs_of_analyzed heq).2
  cases h with
  | unasked e jobs now read message hmessage hdone => exact (Engine.does_step hgraph hdone).deeds
  | answer e before job after now read message hjob hdone =>
    exact (Engine.does_step hgraph hdone).deeds

/-- What each deed keeps true of the log and the engine holds after a run. -/
theorem Run.preserves {I : List (Nat × Occurrence) → Engine → Prop} (h : l.Run graphs rounds m)
    (hdeed : ∀ log e read now seen e', I log e → e.Deed graphs read now seen e' →
      I (log ++ seen.map (now, ·)) e')
    (hl : I [] l.engine) : I (log rounds) m.engine := by
  induction h with
  | refl => exact hl
  | @snoc rounds m n r hrun hround ih =>
    rw [log_append_singleton, Round.log]
    have hdeeds := hround.deeds
    generalize (Occurrence.heard r.message :: r.turn.effects.map .effect) = seen at hdeeds
    generalize n.engine = e at hdeeds
    induction hdeeds with
    | refl => rwa [List.map_nil, List.append_nil]
    | snoc _ hlast ih =>
      rw [List.map_append, ← List.append_assoc]
      exact hdeed _ _ _ _ _ _ ih hlast

/-- How long the engine waits does not change. -/
theorem Run.timing_eq (h : l.Run graphs rounds m) : m.engine.timing = l.engine.timing :=
  h.preserves (I := fun _ e => e.timing = l.engine.timing)
    (fun _ _ _ _ _ _ he hdeed => hdeed.timing_eq.trans he) rfl

end Loop

end Flowgraph
