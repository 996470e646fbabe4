import Flowgraph.Batcher
import Flowgraph.Change
import Flowgraph.Deadlines
import Flowgraph.Engine.Event
import Flowgraph.Store.Basic

/-!
# The engine

The engine keeps the graph live: it waits until a file has been quiet for a while, patches the graph,
and has new nodes classified in batches. It is a transition system. Time and the answers of the
classifier come in as messages, and what the engine reads, reports and asks goes out as effects.
-/

namespace Flowgraph

/-- How long the engine waits, in milliseconds. Windows and times have no bound: a clock that overflows at
the end of a window is left out. -/
structure Timing where
  modifyDebounce : Nat
  createDebounce : Nat
  /-- The quiet time after which an edited file is shown as changed. -/
  editingInactivity : Nat
  classificationWindow : Nat
deriving DecidableEq, Repr

/-- The highlight of a file since the last analysis. -/
structure Activity where
  state : EditState
  functions : List String
deriving DecidableEq, Repr

/-- Work for a classifier. -/
inductive Job where
  | classify (request : ClassificationRequest)
  | analyze (reason : String) (files : Contents)

/-- What the engine reacts to. -/
inductive Message where
  | change (c : Change)
  | analyze (reason : String)
  /-- The time has come to which the engine has been waiting. -/
  | deadline
  | classified (answer : Except String (List Classification))
  | analyzed (reason : String) (files : Contents) (answer : Except String AnalysisResult)

/-- What the engine does besides changing its state. -/
inductive Effect where
  | read (path : String)
  | emit (event : EngineEvent)
  | start (job : Job)

structure Engine where
  timing : Timing
  store : Store
  /-- When the changes of a file are handled. -/
  debounce : Deadlines
  /-- When an actively edited file is shown as changed. -/
  editing : Deadlines
  activity : Std.ExtTreeMap String Activity
  batcher : Batcher
  analysisRunning : Bool
  /-- The reason of the analysis that follows the running one. -/
  analysisQueued : Option String
  /-- The graph that renderers see. -/
  published : Graph

/-- The state after a message, with what has been done on the way. -/
structure Turn where
  engine : Engine
  effects : List Effect
  /-- What has cut the turn short. -/
  failure : Option ImportError

namespace Turn

/-- A new state and effects. -/
def make (e : Engine) (effects : List Effect) : Turn := ⟨e, effects, none⟩

/-- Nothing more than a new state. -/
def quiet (e : Engine) : Turn := make e []

/-- Goes on from the state of a turn, unless it has failed. -/
def andThen (t : Turn) (f : Engine → Turn) : Turn :=
  match t.failure with
  | some _ => t
  | none =>
    let u := f t.engine
    ⟨u.engine, t.effects ++ u.effects, u.failure⟩

/-- Goes on with each element of a list. -/
def forEach (t : Turn) (items : List α) (f : α → Engine → Turn) : Turn :=
  items.foldl (fun t a => t.andThen (f a)) t

end Turn

namespace Engine

variable [Parsers]

/-- The engine on a store, before anything has happened. -/
def start (timing : Timing) (store : Store) : Engine where
  timing
  store
  debounce := .empty
  editing := .empty
  activity := ∅
  batcher := .empty timing.classificationWindow
  analysisRunning := false
  analysisQueued := none
  published := store.graph

/-- The earliest time at which the engine has something to do. -/
def nextDeadline? (e : Engine) : Option Nat :=
  [e.debounce.next?, e.editing.next?, e.batcher.deadline].reduceOption.min?

/-- Shows the graph of the store. -/
def publish (e : Engine) : Engine := { e with published := e.store.graph }

/-! ## Highlights and analyses -/

/-- The functions with those of another list that are not among them yet. -/
def addNew (known : List String) (functions : List String) : List String :=
  functions.foldl (fun known f => if known.contains f then known else known ++ [f]) known

/-- Gives a file a highlight. Functions gather until the next analysis. -/
def setState (path : String) (state : EditState) (functions : List String) (e : Engine) : Turn :=
  let known := (e.activity[path]?.map (·.functions)).getD []
  let functions := addNew known functions
  .make { e with activity := e.activity.insert path ⟨state, functions⟩ }
    [.emit (.fileState path state functions)]

/-- Starts an analysis of all workflow files, or queues it behind the running one. -/
def startAnalysis (reason : String) (e : Engine) : Turn :=
  if e.analysisRunning then .quiet { e with analysisQueued := some reason }
  else
    let files := e.store.analysisFiles
    if files.isEmpty then .quiet e
    else
      .make { e with analysisRunning := true }
        [.emit (.analysisStarted reason files.size), .start (.analyze reason files)]

/-! ## Changes of files -/

/-- Drops a file and everything that waits for it. -/
def deleteFile (path : String) (e : Engine) : Turn :=
  let p := e.store.removeFile path
  let e : Engine :=
    { e with
      store := p.store
      debounce := e.debounce.cancel path
      editing := e.editing.cancel path
      activity := e.activity.erase path
      batcher := e.batcher.forget path }
  if p.patch.isEmpty then .quiet e
  else .make e.publish [.emit (.graphPatched path p.patch p.store.graph)]

/-- Takes notice of a change. A deletion is handled at once, any other change once it has settled. -/
def notice (now : Nat) (c : Change) (e : Engine) : Turn :=
  match c.kind with
  | .delete => e.deleteFile c.path
  | .create =>
    .quiet { e with debounce := e.debounce.schedule c.path (now + e.timing.createDebounce) }
  | .modify =>
    .quiet { e with debounce := e.debounce.schedule c.path (now + e.timing.modifyDebounce) }

/-- The functions that a patch has touched: those that changed, and then those of the new nodes. -/
def touchedFunctions (g : Graph) (p : Patch) : List String :=
  p.changedFunctions ++
    p.nodesAdded.filterMap fun id => (g.node? id).map (·.source.function)

/-- Reports a patch of the graph, and has its new nodes classified in the next batch. -/
def applyPatch (now : Nat) (path : String) (patch : Patch) (e : Engine) : Turn :=
  let graph := e.store.graph
  let e := publish { e with batcher := e.batcher.enqueue path patch.needsMetadata now }
  (Turn.make e [.emit (.graphPatched path patch graph)]).andThen fun e =>
    (e.setState path .active (touchedFunctions graph patch)).andThen fun e =>
      .quiet
        { e with editing := e.editing.schedule path (now + e.timing.editingInactivity) }

/-- Follows the update of a file. Where the graph cannot be patched although the file has been
analyzed, all files are analyzed anew. -/
def followUpdate (now : Nat) (path : String) (patch : Option Patch) (e : Engine) : Turn :=
  match patch with
  | some patch => if patch.isEmpty then .quiet e.publish else e.applyPatch now path patch
  | none =>
    if e.store.wasAnalyzed path then
      startAnalysis ("fallback:" ++ path)
        { e with editing := e.editing.cancel path, activity := e.activity.erase path }
    else .quiet e

/-- Brings the graph in line with the text of a file. A file that cannot be read is passed over. -/
def updateFile (read : String → Option String) (now : Nat) (path : String) (e : Engine) : Turn :=
  match read path with
  | none => .make e [.read path]
  | some content =>
    match e.store.localUpdate path content with
    | .error failure => ⟨e, [.read path], failure⟩
    | .ok (store, patch) =>
      (Turn.make { e with store } [.read path]).andThen (followUpdate now path patch)

/-! ## Deadlines -/

/-- Handles the changes that have settled. -/
def handleSettled (read : String → Option String) (now : Nat) (e : Engine) : Turn :=
  (Turn.quiet { e with debounce := e.debounce.later now }).forEach (e.debounce.due now)
    (updateFile read now)

/-- Shows the files as changed that have been quiet for long enough. -/
def handleInactive (now : Nat) (e : Engine) : Turn :=
  (Turn.quiet { e with editing := e.editing.later now }).forEach (e.editing.due now) fun path e =>
    e.setState path .changed []

/-- Sends off the batch of pending nodes that is due. -/
def handleBatch (now : Nat) (e : Engine) : Turn :=
  let later : Engine := { e with batcher := e.batcher.later now }
  match e.batcher.due? now with
  | none => .quiet later
  | some batch =>
    let request := e.store.classificationRequest batch
    if request.isEmpty then .quiet later else .make later [.start (.classify request)]

/-- Handles everything that is due. -/
def wake (read : String → Option String) (now : Nat) (e : Engine) : Turn :=
  ((e.handleSettled read now).andThen (handleInactive now)).andThen (handleBatch now)

/-! ## Answers -/

/-- Takes the answer to a classification request. Where it failed, the nodes stay pending. -/
def takeClassification (answer : Except String (List Classification)) (e : Engine) : Turn :=
  match answer with
  | .error _ => .quiet e
  | .ok entries =>
    let (store, ids) := e.store.classify entries
    let e : Engine := { e with store }
    if ids.isEmpty then .quiet e else .make e.publish [.emit (.nodesClassified ids)]

/-- The files that are shown as edited. -/
def editedFiles (e : Engine) : List String :=
  (e.activity.toList.filter fun a => a.2.state != .unchanged).map Prod.fst

/-- Puts the graph of an analysis in place of the current one. All highlights end, files that have
changed meanwhile are due at once, and all pending nodes wait to be classified. -/
def install (now : Nat) (files : Contents) (result : AnalysisResult) (e : Engine) : Turn :=
  match e.store.installAnalysis result.graph files with
  | .error failure => ⟨e, [], failure⟩
  | .ok (store, stale) =>
    let graph := store.graph
    let batcher := store.pendingByFile.toList.foldl
      (fun b f => b.enqueue f.1 f.2.toList now) e.batcher
    let debounce := stale.foldl (fun d path => d.schedule path now) e.debounce
    .make (publish { e with store, batcher, debounce, activity := ∅, editing := .empty })
      (.emit (.analysisCompleted graph.nodes.length graph.edges.length result.fromCache) ::
        e.editedFiles.map fun path => .emit (.fileState path .unchanged []))

/-- Starts the analysis that has been queued. -/
def startQueued (e : Engine) : Turn :=
  match e.analysisQueued with
  | none => .quiet e
  | some reason => startAnalysis reason { e with analysisQueued := none }

/-- Takes the outcome of the running analysis, and starts the queued one. -/
def takeAnalysis (now : Nat) (reason : String) (files : Contents)
    (answer : Except String AnalysisResult) (e : Engine) : Turn :=
  let e : Engine := { e with analysisRunning := false }
  let taken : Turn :=
    match answer with
    | .ok result => e.install now files result
    | .error error => .make e [.emit (.analysisFailed reason error)]
  taken.andThen startQueued

/-! ## Messages -/

/-- The reaction to a message. It fails only on source text of which the imports cannot be read. -/
def step (read : String → Option String) (now : Nat) (e : Engine) : Message → Turn
  | .change c => e.notice now c
  | .analyze reason => e.startAnalysis reason
  | .deadline => e.wake read now
  | .classified answer => e.takeClassification answer
  | .analyzed reason files answer => e.takeAnalysis now reason files answer

end Engine

end Flowgraph
