import Flowgraph.Graph.Patch
import Flowgraph.Relevance
import Flowgraph.Resolver.Basic

/-!
# Analyses

The graph of a set of files made from their text alone, and the requests that are put to a
classifier.
-/

namespace Flowgraph

/-- Files by path, with their content. -/
abbrev Contents := Std.ExtTreeMap String String

/-- The ids of pending nodes by file. -/
abbrev PendingBatch := Std.ExtTreeMap String (Std.ExtTreeSet String)

/-! ## Analysis from the text -/

/-- A graph with the resolver that its edges between files are taken from. -/
structure Survey where
  graph : Graph
  resolver : Resolver

namespace Survey

/-- Adds a file with the graph of it alone. -/
def addFile [Parsers] (s : Survey) (path content : String) : Except ImportError Survey :=
  let calls := extract content path
  (s.resolver.updateWith content path calls).map fun change =>
    ⟨(s.graph.mergeFile path (Graph.ofCallGraph calls path)).graph, change.resolver⟩

/-- Draws the edges that lead out of a file. -/
def spliceFile (s : Survey) (path : String) : Survey :=
  { s with graph := (s.graph.splice path (s.resolver.callsFrom path).toList).graph }

end Survey

/-- The graph of a set of files: the graph of each, and the edges between them. -/
def localAnalysis [Parsers] (files : Contents) : Except ImportError Graph :=
  (files.toList.foldlM (fun (s : Survey) f => s.addFile f.1 f.2) ⟨.empty, .empty⟩).map fun s =>
    (files.keys.foldl Survey.spliceFile s).graph

/-- The framework, or client library, of the first file that has one. -/
def frameworkOf (files : Contents) : Option String := files.values.findSome? Relevance.framework?

/-- The graph of an analysis, and whether it came from a cache. -/
structure AnalysisResult where
  graph : Graph
  fromCache : Bool

/-! ## Requests -/

/-- What a classifier is told of a file with pending nodes. -/
structure FileRequest where
  nodeIds : List String
  functions : List String
  callGraph : CallGraph
  content : String

/-- A request to classify the pending nodes of some files. -/
abbrev ClassificationRequest := Std.ExtTreeMap String FileRequest

/-- The number of nodes that a request asks for. -/
def ClassificationRequest.nodeCount (r : ClassificationRequest) : Nat :=
  r.values.foldr (fun f n => f.nodeIds.length + n) 0

end Flowgraph
