import Flowgraph.Graph.Topology

/-!
# Calls between files

Calls from a function of one file to a function of another, and the edges drawn for them.
-/

namespace Flowgraph

/-- The function that makes a call. -/
structure CallSite where
  file : String
  function : String
  line : Nat
deriving DecidableEq, Repr

/-- The function that is called, and the name of the module it is called through. -/
structure CallTarget where
  file : String
  function : String
  module : String
deriving DecidableEq, Repr

structure CrossFileCall where
  caller : CallSite
  callee : CallTarget
deriving DecidableEq, Repr

namespace CrossFileCall

/-- Calls are ordered by the file, function and line of the caller, and then by the file, function and
module of the callee. -/
def compare : CrossFileCall → CrossFileCall → Ordering :=
  compareLex (compareOn fun c => c.caller.file) <|
  compareLex (compareOn fun c => c.caller.function) <|
  compareLex (compareOn fun c => c.caller.line) <|
  compareLex (compareOn fun c => c.callee.file) <|
  compareLex (compareOn fun c => c.callee.function) (compareOn fun c => c.callee.module)

instance : Std.TransCmp compare := by unfold compare; infer_instance

instance : Std.LawfulEqCmp compare where
  eq_of_compare {a b} h := by
    simp only [compare, compareLex, compareOn, Ordering.then_eq_eq,
      Std.LawfulEqCmp.compare_eq_iff_eq] at h
    obtain ⟨⟨f, g, l⟩, ⟨f', g', m⟩⟩ := a
    simp_all

end CrossFileCall

/-- A set of calls, which enumerates them in order. -/
abbrev CrossFileCalls := Std.ExtTreeSet CrossFileCall CrossFileCall.compare

namespace Graph

/-- The ids of the two nodes of a call that starts in `path`, if both functions have a node. -/
def callEnds? (g : Graph) (path : String) (c : CrossFileCall) : Option StringPair :=
  if c.caller.file == path then
    match g.functionNodeId? path c.caller.function,
      g.functionNodeId? c.callee.file c.callee.function with
    | some source, some target => some (source, target)
    | _, _ => none
  else none

/-- The pairs of nodes that the calls from `path` link. -/
def desiredLinks (g : Graph) (path : String) (calls : List CrossFileCall) : StringPairs :=
  Std.ExtTreeSet.ofList (calls.filterMap (g.callEnds? path)) _

/-- Whether an edge stays when the calls from `path` link the pairs `desired`. Only an edge that leads
out of the file and has not been named can go. -/
def staysLinked (ids : List String) (desired : StringPairs) (e : Edge) : Bool :=
  !(ids.contains e.source && !ids.contains e.target) || e.label != Edge.unresolvedLabel ||
    desired.contains (e.source, e.target)

/-- The result of drawing the edges between files: how many were added and removed. -/
structure Splice where
  graph : Graph
  added : Nat
  removed : Nat

/-- Draws the edges that lead out of the file `path` after `calls`, and removes those derived from
earlier calls. -/
def splice (g : Graph) (path : String) (calls : List CrossFileCall) : Splice :=
  let desired := g.desiredLinks path calls
  let kept := { g with
    edges := g.edges.filter (staysLinked ((g.fileNodes path).map (·.id)) desired) }
  let linked := desired.toList.foldl (fun h p => h.addEdge (.unresolved p.1 p.2)) kept
  let removed := g.edges.length - kept.edges.length
  let added := linked.edges.length - kept.edges.length
  ⟨if added == 0 && removed == 0 then linked else linked.refreshEndpoints, added, removed⟩

end Graph

end Flowgraph
