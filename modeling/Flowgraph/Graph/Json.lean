import Flowgraph.CallGraph.Diff
import Flowgraph.Graph.Classification
import Flowgraph.Json.Printer
import Flowgraph.Json.Record

/-!
# Graphs as JSON

The JSON form of call graphs, workflow graphs and classifications.
-/

namespace Flowgraph

open Json (required defaulted nullable asString? asBool? asNat? asList? entry?)

/-! ## Writing -/

def FunctionInfo.toJson (f : FunctionInfo) : Json :=
  .record [("name", .ofString f.name), ("startLine", .nat f.startLine), ("endLine", .nat f.endLine),
    ("calls", .ofStrings f.calls)]

/-- A call graph is written as an object with an entry for each function. -/
def CallGraph.toJson (g : CallGraph) : Json := .record (g.toList.map fun f => (f.name, f.toJson))

def StringPairs.toJson (ps : StringPairs) : Json :=
  .array (ps.toList.map fun p => .ofStrings [p.1, p.2])

def CallGraphDiff.toJson (d : CallGraphDiff) : Json :=
  .record [("addedFunctions", .ofStrings d.addedFunctions.toList),
    ("removedFunctions", .ofStrings d.removedFunctions.toList),
    ("modifiedFunctions", .ofStrings d.modifiedFunctions.toList),
    ("addedEdges", StringPairs.toJson d.addedEdges),
    ("removedEdges", StringPairs.toJson d.removedEdges)]

def Location.toJson (l : Location) : Json :=
  .record [("file", .ofString l.file), ("line", .nat l.line), ("function", .ofString l.function)]

def Node.toJson (n : Node) : Json :=
  .record ([("id", .ofString n.id), ("label", .ofString n.label), ("type", .ofString n.type),
    ("source", n.source.toJson), ("isEntryPoint", .bool n.isEntryPoint),
    ("isExitPoint", .bool n.isExitPoint), ("pending", .bool n.pending)] ++
    entry? "description" .ofString n.description)

def Edge.toJson (e : Edge) : Json :=
  .record ([("source", .ofString e.source), ("target", .ofString e.target),
    ("label", .ofString e.label)] ++ entry? "dataType" .ofString e.dataType ++
    entry? "description" .ofString e.description ++
    entry? "sourceLocation" Location.toJson e.sourceLocation)

def Graph.toJson (g : Graph) : Json :=
  .record [("nodes", .array (g.nodes.map Node.toJson)), ("edges", .array (g.edges.map Edge.toJson))]

/-! ## Reading -/

def Location.ofJson? (j : Json) : Option Location :=
  match j.fields? ["file", "line", "function"] with
  | some [file, line, function] => do
    return ⟨← required asString? file, ← required asNat? line, ← required asString? function⟩
  | _ => none

def Node.ofJson? (j : Json) : Option Node :=
  match j.fields? ["id", "label", "type", "source", "isEntryPoint", "isExitPoint", "pending",
      "description"] with
  | some [id, label, type, source, isEntryPoint, isExitPoint, pending, description] => do
    return ⟨← required asString? id, ← required asString? label, ← required asString? type,
      ← required Location.ofJson? source, ← defaulted false asBool? isEntryPoint,
      ← defaulted false asBool? isExitPoint, ← defaulted false asBool? pending,
      ← nullable asString? description⟩
  | _ => none

def Edge.ofJson? (j : Json) : Option Edge :=
  match j.fields? ["source", "target", "label", "dataType", "description", "sourceLocation"] with
  | some [source, target, label, dataType, description, sourceLocation] => do
    return ⟨← required asString? source, ← required asString? target, ← required asString? label,
      ← nullable asString? dataType, ← nullable asString? description,
      ← nullable Location.ofJson? sourceLocation⟩
  | _ => none

def Graph.ofJson? (j : Json) : Option Graph :=
  match j.fields? ["nodes", "edges"] with
  | some [nodes, edges] => do
    return ⟨← required (asList? Node.ofJson?) nodes, ← required (asList? Edge.ofJson?) edges⟩
  | _ => none

def Classification.ofJson? (j : Json) : Option Classification :=
  match j.fields? ["id", "type", "label", "description"] with
  | some [id, type, label, description] => do
    return ⟨← required asString? id, ← required asString? type, ← required asString? label,
      ← nullable asString? description⟩
  | _ => none

/-- The classifications of the answer to a classification request. -/
def Classification.listOfJson? (j : Json) : Option (List Classification) :=
  match j.fields? ["nodes"] with
  | some [nodes] => required (asList? Classification.ofJson?) nodes
  | _ => none

end Flowgraph
