import Flowgraph.Analysis
import Flowgraph.Graph.Classification

/-!
# The workspace store

Everything known of a workspace: the graph, the content and the call graph of every tracked file, and
the resolver. An update of a file patches the graph where it can, and otherwise says that it cannot.
-/

namespace Flowgraph

structure Store where
  graph : Graph
  callGraphs : Std.ExtTreeMap String CallGraph
  contents : Contents
  resolver : Resolver
  /-- The files that took part in the last analysis. -/
  analyzed : Std.ExtTreeSet String

namespace Store

variable [Parsers]

def empty : Store := ⟨.empty, ∅, ∅, .empty, ∅⟩

instance : Inhabited Store := ⟨empty⟩

def isTracked (s : Store) (path : String) : Bool := s.callGraphs.contains path

def wasAnalyzed (s : Store) (path : String) : Bool := s.analyzed.contains path

def trackedFiles (s : Store) : List String := s.callGraphs.keys

/-! ## Tracking -/

/-- Keeps the content and call graph of a file. -/
def remember (s : Store) (path content : String) (calls : CallGraph) : Store :=
  { s with
    callGraphs := s.callGraphs.insert path calls
    contents := s.contents.insert path content }

/-- A store with the files of which the calls have changed. -/
structure Indexed where
  store : Store
  affected : Std.ExtTreeSet String

/-- Indexes a file with its call graph, and keeps both. -/
def index (s : Store) (path content : String) (calls : CallGraph) : Except ImportError Indexed :=
  (s.resolver.updateWith content path calls).map fun change =>
    ⟨remember { s with resolver := change.resolver } path content calls, change.affected⟩

/-- Takes the content of a file as the baseline of later updates, without touching the graph. -/
def trackFile (s : Store) (path content : String) : Except ImportError Store :=
  (s.index path content (extract content path)).map (·.store)

/-- Tracks files one after another, and then derives the calls between them. -/
def seed (s : Store) (files : List (String × String)) : Except ImportError Store :=
  (files.foldlM (fun (s : Store) f => s.trackFile f.1 f.2) s).map fun s =>
    { s with resolver := s.resolver.resolveAll.resolver }

/-! ## Updating -/

/-- A store with the patch that led to it. -/
structure Patched where
  store : Store
  patch : Patch

/-- Draws the edges that lead out of a file. -/
def Patched.spliceFile (p : Patched) (path : String) : Patched :=
  let r := p.store.graph.splice path (p.store.resolver.callsFrom path).toList
  ⟨{ p.store with graph := r.graph },
    { p.patch with
      edgesAdded := p.patch.edgesAdded + r.added
      edgesRemoved := p.patch.edgesRemoved + r.removed }⟩

/-- How an update of a file changes the graph. -/
inductive Plan where
  /-- The file has nodes and a baseline, from which the graph is patched. -/
  | patch (update : Graph.Update)
  /-- The file comes into the graph. -/
  | join (update : Graph.Update)
  /-- The file stays out of the graph. -/
  | remember (known : Bool)
  /-- The file has nodes but no baseline. -/
  | refuse

/-- The plan for an update of a file to the given content, with its call graph. -/
def plan (s : Store) (path content : String) (calls : CallGraph) : Plan :=
  if s.graph.hasFile path then
    match s.callGraphs[path]? with
    | none => .refuse
    | some old =>
      match s.graph.applyDiff (old.diff calls) calls path with
      | .ok u => .patch u
      | .error _ => .refuse
  else if Relevance.isWorkflowFile path content then
    .join (s.graph.mergeFile path (Graph.ofCallGraph calls path))
  else .remember (s.isTracked path)

/-- Puts a changed graph into the store, indexes the file, and draws the edges that lead out of it and
of the files of which the calls have changed. -/
def commit (s : Store) (path content : String) (calls : CallGraph) (u : Graph.Update) :
    Except ImportError Patched :=
  (index { s with graph := u.graph } path content calls).map fun i =>
    (i.affected.insert path).toList.foldl Patched.spliceFile ⟨i.store, u.patch⟩

/-- Brings the graph in line with the content of a file. There is no patch where that cannot be done:
the graph does not know the file, or has nodes of it without a baseline. The call graph of the content is
always there, as the language is supported (`tryExtract_eq_ok_extract`), so that there is no case in which
an earlier one has to be kept. -/
def localUpdate (s : Store) (path content : String) :
    Except ImportError (Store × Option Patch) :=
  if (Language.ofPath path).isSupported then
    let calls := extract content path
    match s.plan path content calls with
    | .patch u | .join u => (s.commit path content calls u).map fun p => (p.store, some p.patch)
    | .remember known =>
      (s.index path content calls).map fun i => (i.store, if known then some .empty else none)
    | .refuse => .ok (s, none)
  else .ok (s, none)

/-- Drops a file from everything. -/
def removeFile (s : Store) (path : String) : Patched :=
  let graph := s.graph.removeFile path
  let change := s.resolver.removeFile path
  let patch : Patch := { Patch.empty with
    nodesRemoved := (s.graph.fileNodes path).map (·.id)
    edgesRemoved := s.graph.edges.length - graph.edges.length }
  let dropped : Store := {
    graph
    callGraphs := s.callGraphs.erase path
    contents := s.contents.erase path
    resolver := change.resolver
    analyzed := s.analyzed.erase path }
  let p := change.affected.toList.foldl Patched.spliceFile ⟨dropped, patch⟩
  if p.patch.isEmpty then p
  else { p with store := { p.store with graph := p.store.graph.refreshEndpoints } }

/-! ## Analyses -/

/-- The files worth an analysis. -/
def analysisFiles (s : Store) : Contents := s.contents.filter Relevance.isWorkflowFile

/-- The paths of which the content has moved on since `contents`. -/
def stalePaths (s : Store) (contents : Contents) : List String :=
  (contents.toList.filter fun f => s.contents[f.1]?.any (· != f.2)).map Prod.fst

/-- Puts the graph of an analysis in place of the current one, and takes the analyzed contents as the
baseline. The paths that have moved on meanwhile need another update. -/
def installAnalysis (s : Store) (graph : Graph) (contents : Contents) :
    Except ImportError (Store × List String) :=
  (contents.toList.foldlM (fun (s : Store) f => s.trackFile f.1 f.2) s).map fun tracked =>
    ({ tracked with
      graph
      analyzed := Std.ExtTreeSet.ofList contents.keys _ ∪ graph.files }, s.stalePaths contents)

/-! ## Classification -/

def classify (s : Store) (entries : List Classification) : Store × List String :=
  let r := s.graph.classify entries
  ({ s with graph := r.graph }, r.ids)

/-- The pending nodes by file. -/
def pendingByFile (s : Store) : PendingBatch :=
  (s.graph.nodes.filter (·.pending)).foldl
    (fun batch n => batch.insert n.source.file ((batch.getD n.source.file ∅).insert n.id)) ∅

/-- What a classifier is told of the nodes of a file that are still pending. -/
def fileRequest? (s : Store) (path : String) (ids : Std.ExtTreeSet String) : Option FileRequest :=
  match s.callGraphs[path]?, s.contents[path]? with
  | some callGraph, some content =>
    let nodes := ids.toList.filterMap fun id => (s.graph.node? id).filter (·.pending)
    if nodes.isEmpty then none
    else some ⟨nodes.map (·.id), nodes.map (·.source.function), callGraph, content⟩
  | _, _ => none

/-- The request for the nodes of a batch that are still pending. -/
def classificationRequest (s : Store) (batch : PendingBatch) : ClassificationRequest :=
  batch.filterMap s.fileRequest?

end Store

end Flowgraph
