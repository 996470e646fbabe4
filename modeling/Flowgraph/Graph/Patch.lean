import Flowgraph.Call
import Flowgraph.CallGraph.Diff
import Flowgraph.Graph.Topology

/-!
# Patches

Keeping the nodes of one file in line with its call graph: from nothing, by a difference of call
graphs, or by replacing what the file contributed before. A patch reports what changed.
-/

namespace Flowgraph

/-- What an update has changed in a graph. -/
structure Patch where
  nodesAdded : List String
  nodesRemoved : List String
  nodesUpdated : List String
  edgesAdded : Nat
  edgesRemoved : Nat
  /-- The ids of the added nodes that wait for classification. -/
  needsMetadata : List String
  /-- The functions of which the body or the position changed. -/
  changedFunctions : List String
deriving DecidableEq, Repr

namespace Patch

def empty : Patch := ⟨[], [], [], 0, 0, [], []⟩

/-- Whether no node or edge was added or removed. A node that only moved does not count. -/
def isEmpty (p : Patch) : Bool :=
  p.nodesAdded.isEmpty && p.nodesRemoved.isEmpty && p.edgesAdded == 0 && p.edgesRemoved == 0

end Patch

/-- The one reason for which a difference cannot be applied: it names a function that the new call
graph does not have. -/
inductive UpdateError where
  | inconsistentDiff (path function : String)
deriving DecidableEq, Repr

def UpdateError.message : UpdateError → String
  | .inconsistentDiff path function =>
    s!"Function \x60{function}\x60 is listed in the diff but missing from the new call graph of {path}"

namespace Graph

/-- The callee of a call that stays in the file: another function of it, without a module. -/
def fileCallee? (calls : CallGraph) (caller call : String) : Option String :=
  match Call.split call with
  | (none, name) => if name != caller && calls.contains name then some name else none
  | _ => none

/-! ## The graph of a file -/

/-- Adds the pending node of a function under a free id. -/
def addFunction (path : String) (g : Graph) (f : FunctionInfo) : Graph :=
  g.addNode (Node.ofFunction (g.allocateId path f.name f.startLine) path f)

/-- Adds the edge of a call between two functions of a file. -/
def addCall (path : String) (calls : CallGraph) (caller : String) (g : Graph) (call : String) : Graph :=
  match fileCallee? calls caller call with
  | none => g
  | some callee =>
    match g.functionNodeId? path caller, g.functionNodeId? path callee with
    | some source, some target => g.addEdge (.unresolved source target)
    | _, _ => g

/-- The graph of a file alone: a pending node for each function, and an edge for each call between
two of them. -/
def ofCallGraph (calls : CallGraph) (path : String) : Graph :=
  let g := calls.toList.foldl (addFunction path) empty
  (calls.toList.foldl (fun g f => f.calls.foldl (addCall path calls f.name) g) g).refreshEndpoints

/-! ## Applying a difference -/

/-- A graph and what has been changed in it so far. -/
structure Update where
  graph : Graph
  patch : Patch

namespace Update

/-- Removes the node of a function, if it has one. -/
def removeFunction (path : String) (u : Update) (name : String) : Update :=
  match u.graph.functionNodeId? path name with
  | none => u
  | some id =>
    let graph := u.graph.removeNode id
    ⟨graph, { u.patch with
      nodesRemoved := u.patch.nodesRemoved ++ [id]
      edgesRemoved := u.patch.edgesRemoved + (u.graph.edges.length - graph.edges.length) }⟩

/-- Moves the node of a function to a line. -/
def moveFunction (path name : String) (line : Nat) (g : Graph) : Graph :=
  { g with nodes := updateFirst (·.isOf path name) (·.moveTo line) g.nodes }

/-- Notes that a function has moved, if it has a node. -/
def touchFunction (path : String) (u : Update) (f : FunctionInfo) (name : String) : Update :=
  match u.graph.functionNodeId? path name with
  | none => u
  | some id =>
    ⟨moveFunction path name f.startLine u.graph,
      { u.patch with nodesUpdated := u.patch.nodesUpdated ++ [id] }⟩

/-- Adds the node of a function. One that is there already moves to the line of the function. -/
def addFunction (path : String) (new : CallGraph) (u : Update) (name : String) :
    Except UpdateError Update :=
  match new.get? name with
  | none => .error (.inconsistentDiff path name)
  | some f =>
    if (u.graph.functionNode? path name).isSome then .ok (u.touchFunction path f name)
    else
      let id := u.graph.allocateId path name f.startLine
      .ok ⟨u.graph.addNode (Node.ofFunction id path f), { u.patch with
        nodesAdded := u.patch.nodesAdded ++ [id]
        needsMetadata := u.patch.needsMetadata ++ [id] }⟩

/-- Moves the node of a changed function to its new line. -/
def modifyFunction (path : String) (new : CallGraph) (u : Update) (name : String) :
    Except UpdateError Update :=
  match new.get? name with
  | none => .error (.inconsistentDiff path name)
  | some f =>
    let u := u.touchFunction path f name
    .ok { u with patch := { u.patch with changedFunctions := u.patch.changedFunctions ++ [name] } }

/-- Removes the edges of a call within the file. -/
def removeCall (path : String) (u : Update) (edge : StringPair) : Update :=
  match Call.split edge.2 with
  | (none, callee) =>
    match u.graph.functionNodeId? path edge.1, u.graph.functionNodeId? path callee with
    | some source, some target =>
      let graph := u.graph.removeEdge source target
      ⟨graph, { u.patch with
        edgesRemoved := u.patch.edgesRemoved + (u.graph.edges.length - graph.edges.length) }⟩
    | _, _ => u
  | _ => u

/-- Adds an edge derived from a call. -/
def link (u : Update) (source target : String) : Update :=
  if u.graph.hasEdge source target then u
  else ⟨u.graph.addEdge (.unresolved source target),
    { u.patch with edgesAdded := u.patch.edgesAdded + 1 }⟩

/-- Adds the edge of a call within the file. -/
def addCall (path : String) (new : CallGraph) (u : Update) (edge : StringPair) : Update :=
  match fileCallee? new edge.1 edge.2 with
  | none => u
  | some callee =>
    match u.graph.functionNodeId? path edge.1, u.graph.functionNodeId? path callee with
    | some source, some target => u.link source target
    | _, _ => u

/-- Links a function to the new function `name` that it calls. -/
def linkCaller (path : String) (new : CallGraph) (name target : String) (u : Update)
    (caller : FunctionInfo) : Update :=
  if caller.calls.any fun call => fileCallee? new caller.name call == some name then
    match u.graph.functionNodeId? path caller.name with
    | some source => u.link source target
    | none => u
  else u

/-- Links the new function `name` to its callers. The call may be older than the function, and then no
edge is new in the difference. -/
def linkCallers (path : String) (new : CallGraph) (u : Update) (name : String) : Update :=
  match u.graph.functionNodeId? path name with
  | none => u
  | some target => new.toList.foldl (linkCaller path new name target) u

/-- Brings the flags up to date where something was added or removed. -/
def finish (u : Update) : Update :=
  if u.patch.isEmpty then u else { u with graph := u.graph.refreshEndpoints }

end Update

/-- Applies a difference of the call graphs of a file, of which `new` is the later one. -/
def applyDiff (g : Graph) (diff : CallGraphDiff) (new : CallGraph) (path : String) :
    Except UpdateError Update := do
  let u := diff.removedFunctions.toList.foldl (Update.removeFunction path) ⟨g, .empty⟩
  let u ← diff.addedFunctions.toList.foldlM (Update.addFunction path new) u
  let u ← diff.modifiedFunctions.toList.foldlM (Update.modifyFunction path new) u
  let u := diff.removedEdges.toList.foldl (Update.removeCall path) u
  let u := diff.addedEdges.toList.foldl (Update.addCall path new) u
  let u := diff.addedFunctions.toList.foldl (Update.linkCallers path new) u
  return u.finish

/-! ## Replacing a file -/

/-- Replaces what a file contributed to the graph by the graph of the file alone. -/
def mergeFile (g : Graph) (path : String) (file : Graph) : Update :=
  let bare := g.removeFile path
  let whole := file.edges.foldl addEdge { bare with nodes := bare.nodes ++ file.nodes }
  ⟨whole, {
    nodesAdded := file.nodeIds
    nodesRemoved := (g.fileNodes path).map (·.id)
    nodesUpdated := []
    edgesAdded := whole.edges.length - bare.edges.length
    edgesRemoved := g.edges.length - bare.edges.length
    needsMetadata := file.pendingIds
    changedFunctions := [] }⟩

end Graph

end Flowgraph
