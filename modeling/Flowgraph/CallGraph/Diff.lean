import Flowgraph.CallGraph.Basic

/-!
# Differences of call graphs

What has to be added to, removed from and changed in one revision of a file to get another.
-/

namespace Flowgraph

/-- The delta between two revisions of a file. -/
structure CallGraphDiff where
  addedFunctions : Std.ExtTreeSet String
  removedFunctions : Std.ExtTreeSet String
  modifiedFunctions : Std.ExtTreeSet String
  addedEdges : StringPairs
  removedEdges : StringPairs

namespace CallGraphDiff

/-- Whether the delta changes nothing. -/
def isEmpty (d : CallGraphDiff) : Bool :=
  d.addedFunctions.isEmpty && d.removedFunctions.isEmpty && d.modifiedFunctions.isEmpty &&
    d.addedEdges.isEmpty && d.removedEdges.isEmpty

/-- The names that are left of `keys` without the removed and with the added functions. -/
def applyToKeys (d : CallGraphDiff) (keys : Std.ExtTreeSet String) : Std.ExtTreeSet String :=
  (keys.filter fun k => !d.removedFunctions.contains k) ∪ d.addedFunctions

end CallGraphDiff

namespace CallGraph

/-- The names of the functions, as a set. -/
def nameSet (g : CallGraph) : Std.ExtTreeSet String := Std.ExtTreeSet.ofList g.names _

/-- Whether the body or the position of the function `name`, present in both revisions, changed. -/
def isModified (old new : CallGraph) (name : String) : Bool :=
  match old.get? name, new.get? name with
  | some before, some after =>
    before.calls != after.calls || before.startLine != after.startLine ||
      before.endLine != after.endLine
  | _, _ => false

/-- The delta from `old` to `new`. -/
def diff (old new : CallGraph) : CallGraphDiff where
  addedFunctions := new.nameSet.filter fun name => !old.contains name
  removedFunctions := old.nameSet.filter fun name => !new.contains name
  modifiedFunctions := old.nameSet.filter (isModified old new)
  addedEdges := new.edges.filter fun e => !old.edges.contains e
  removedEdges := old.edges.filter fun e => !new.edges.contains e

end CallGraph

end Flowgraph
