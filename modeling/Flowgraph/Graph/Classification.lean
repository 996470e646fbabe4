import Flowgraph.Graph.Basic

/-!
# Classification

Giving pending nodes their type and label.
-/

namespace Flowgraph

/-- The type and label found for a node. -/
structure Classification where
  id : String
  type : String
  label : String
  description : Option String
deriving DecidableEq, Repr

/-- The node with the type and label given to it. -/
def Node.classify (n : Node) (c : Classification) : Node :=
  { n with type := c.type, label := c.label, pending := false
           description := c.description.or n.description }

namespace Graph

/-- A graph with the ids of the nodes classified so far. -/
structure Classified where
  graph : Graph
  ids : List String

/-- Classifies the node an entry names, if it is pending. -/
def Classified.apply (r : Classified) (c : Classification) : Classified :=
  match r.graph.node? c.id with
  | none => r
  | some n =>
    if n.pending then ⟨r.graph.updateNode c.id (·.classify c), r.ids ++ [c.id]⟩ else r

/-- Classifies nodes entry by entry. A node takes the first entry that names it. -/
def classify (g : Graph) (entries : List Classification) : Classified :=
  entries.foldl Classified.apply ⟨g, []⟩

end Graph

end Flowgraph
