import Flowgraph.Analysis
import Flowgraph.Graph.Json

/-!
# Cached analyses

An analysis together with the contents it was made from, its JSON form, and a cache that keeps
analyses by key in memory.
-/

namespace Flowgraph

structure CachedAnalysis where
  graph : Graph
  contents : Contents

namespace CachedAnalysis

def toJson (a : CachedAnalysis) : Json :=
  .record [("graph", a.graph.toJson),
    ("contents", .record (a.contents.toList.map fun f => (f.1, .ofString f.2)))]

/-- The files of an object from paths to contents. Of a path that stands twice the last content
counts. -/
def contentsOfJson? (j : Json) : Option Contents :=
  (Json.asEntries? Json.asString? j).map fun files => Std.ExtTreeMap.ofList files _

def ofJson? (j : Json) : Option CachedAnalysis :=
  match j.fields? ["graph", "contents"] with
  | some [graph, contents] => do
    return ⟨← Json.required Graph.ofJson? graph, ← Json.required contentsOfJson? contents⟩
  | _ => none

end CachedAnalysis

/-- Analyses by key. -/
abbrev MemoryCache := Std.ExtTreeMap String CachedAnalysis

end Flowgraph
