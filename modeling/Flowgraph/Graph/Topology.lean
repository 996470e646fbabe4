import Flowgraph.Graph.Basic

/-!
# Neighbours

The callers and callees of a node, and the nodes at which a workflow starts and ends.
-/

namespace Flowgraph.Graph

/-- The edges both ends of which are nodes. -/
def properEdges (g : Graph) : List Edge :=
  g.edges.filter fun e => g.containsNode e.source && g.containsNode e.target

/-- The nodes that call a node, each once, in the order of the edges. -/
def callersOf (g : Graph) (id : String) : List String :=
  ((g.properEdges.filter (·.target == id)).map (·.source)).eraseDups

/-- The nodes that a node calls, each once, in the order of the edges. -/
def calleesOf (g : Graph) (id : String) : List String :=
  ((g.properEdges.filter (·.source == id)).map (·.target)).eraseDups

/-- Whether no other node calls the node. -/
def isEntry (g : Graph) (id : String) : Bool := (g.callersOf id).all (· == id)

/-- Whether the node calls no other node. -/
def isExit (g : Graph) (id : String) : Bool := (g.calleesOf id).all (· == id)

/-- Brings the entry and exit flags of the pending nodes up to date. The others keep the flags that
classification has given them. -/
def refreshEndpoints (g : Graph) : Graph :=
  g.pendingIds.foldl
    (fun h id => h.updateNode id fun n =>
      { n with isEntryPoint := g.isEntry id, isExitPoint := g.isExit id })
    g

end Flowgraph.Graph
