import Flowgraph.CallGraph.Basic

/-!
# Workflow graphs

The graph of a workspace: a node for each function, and an edge for each call between two of them.
Nodes and edges keep the order in which they came. A function is found by its place in the source and
not by the id of its node, so that an id with a suffix is found too.
-/

namespace Flowgraph

/-- A place in the source tree. -/
structure Location where
  file : String
  line : Nat
  function : String
deriving DecidableEq, Repr

/-- A function in the graph. It is pending until it has been given its type and label. -/
structure Node where
  id : String
  label : String
  type : String
  source : Location
  isEntryPoint : Bool
  isExitPoint : Bool
  pending : Bool
  description : Option String
deriving DecidableEq, Repr

/-- A link between two nodes, named by their ids. -/
structure Edge where
  source : String
  target : String
  label : String
  dataType : Option String
  description : Option String
  sourceLocation : Option Location
deriving DecidableEq, Repr

structure Graph where
  nodes : List Node
  edges : List Edge
deriving DecidableEq, Repr

/-! ## Nodes and edges -/

/-- The type of a node that has not been classified. -/
def Node.pendingType : String := "step"

/-- The pending node of a function. -/
def Node.ofFunction (id file : String) (f : FunctionInfo) : Node where
  id := id
  label := f.name
  type := Node.pendingType
  source := ⟨file, f.startLine, f.name⟩
  isEntryPoint := false
  isExitPoint := false
  pending := true
  description := none

/-- The node on another line of its file. -/
def Node.moveTo (n : Node) (line : Nat) : Node := { n with source := { n.source with line } }

/-- Whether the node stands for a function of the given file. -/
def Node.isOf (n : Node) (file function : String) : Bool :=
  n.source.file == file && n.source.function == function

/-- The label of an edge that has been derived from a call and not been named. -/
def Edge.unresolvedLabel : String := "calls"

/-- The edge derived from a call. -/
def Edge.unresolved (source target : String) : Edge :=
  ⟨source, target, Edge.unresolvedLabel, none, none, none⟩

def Edge.joins (e : Edge) (source target : String) : Bool := e.source == source && e.target == target

def Edge.touches (e : Edge) (id : String) : Bool := e.source == id || e.target == id

namespace Graph

def empty : Graph := ⟨[], []⟩

instance : Inhabited Graph := ⟨empty⟩

/-! ## Looking up -/

def nodeIds (g : Graph) : List String := g.nodes.map (·.id)

def node? (g : Graph) (id : String) : Option Node := g.nodes.find? (·.id == id)

def containsNode (g : Graph) (id : String) : Bool := (g.node? id).isSome

/-- The node of a function of a file. -/
def functionNode? (g : Graph) (file function : String) : Option Node :=
  g.nodes.find? (·.isOf file function)

def functionNodeId? (g : Graph) (file function : String) : Option String :=
  (g.functionNode? file function).map (·.id)

def fileNodes (g : Graph) (file : String) : List Node := g.nodes.filter (·.source.file == file)

def hasFile (g : Graph) (file : String) : Bool := g.nodes.any (·.source.file == file)

/-- The files that have a node. -/
def files (g : Graph) : Std.ExtTreeSet String := Std.ExtTreeSet.ofList (g.nodes.map (·.source.file)) _

def hasEdge (g : Graph) (source target : String) : Bool := g.edges.any (·.joins source target)

/-- The ids of the pending nodes. -/
def pendingIds (g : Graph) : List String := (g.nodes.filter (·.pending)).map (·.id)

/-! ## Ids -/

/-- The id of a function: its file and its name. -/
def nodeId (file function : String) : String := file ++ "::" ++ function

/-- The ids tried for a function, in order: the plain one, the one with its line, and then numbered
ones from two on. -/
def idCandidate (file function : String) (line : Nat) : Nat → String
  | 0 => nodeId file function
  | 1 => nodeId file function ++ "::" ++ toString line
  | k => nodeId file function ++ "::" ++ toString line ++ "-" ++ toString k

/-- The first candidate that is no id of the graph. With one candidate more than there are nodes, one
is free. -/
def allocateId (g : Graph) (file function : String) (line : Nat) : String :=
  (((List.range (g.nodes.length + 1)).map (idCandidate file function line)).find?
    fun id => !g.containsNode id).getD (nodeId file function)

/-! ## Changing -/

/-- Changes the first element that satisfies `p`. -/
def updateFirst (p : α → Bool) (f : α → α) : List α → List α
  | [] => []
  | a :: as => if p a then f a :: as else a :: updateFirst p f as

/-- Changes the node with an id. -/
def updateNode (g : Graph) (id : String) (f : Node → Node) : Graph :=
  { g with nodes := updateFirst (·.id == id) f g.nodes }

def addNode (g : Graph) (n : Node) : Graph := { g with nodes := g.nodes ++ [n] }

/-- Adds an edge unless its two nodes are linked already. -/
def addEdge (g : Graph) (e : Edge) : Graph :=
  if g.hasEdge e.source e.target then g else { g with edges := g.edges ++ [e] }

/-- Removes the edges from one node to another. -/
def removeEdge (g : Graph) (source target : String) : Graph :=
  { g with edges := g.edges.filter fun e => !e.joins source target }

/-- Removes a node with the edges that touch it. -/
def removeNode (g : Graph) (id : String) : Graph where
  nodes := g.nodes.filter fun n => n.id != id
  edges := g.edges.filter fun e => !e.touches id

/-- Removes the nodes of a file with the edges that touch them. -/
def removeFile (g : Graph) (file : String) : Graph :=
  ((g.fileNodes file).map (·.id)).foldl removeNode g

end Graph

end Flowgraph
